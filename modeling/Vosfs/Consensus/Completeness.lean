import Vosfs.Consensus.Confirmation

/-!
# Later leaders hold what a majority confirmed

`Inherited.candidateLog_prefix`: once a majority confirmed a leader's own entry,
every later leader stood with that entry and everything before it.

The argument is by strong induction on the later term.  A majority confirmed and a
majority voted, so some node did both, and it confirmed before it voted.  Two
invariants carry the rest, and neither mentions majorities, so that they are kept
step by step:

* `Retained`: a node holds what it confirmed, unless a later leader stood without
  it (`History.Lost`);
* `Inherited`: so does the candidate it then voted for.
-/

set_option linter.unusedSectionVars false

namespace Vosfs.Consensus

open Function

variable {Node Entry : Type*} [HasTerm Entry] {h : History Node Entry}

/-! ## What was confirmed is retained -/

/-- A node holds the leader's own entries it confirmed, and what precedes them,
unless a leader since then stood without them. -/
def Retained (h : History Node Entry) : Prop :=
  ∀ {T i n}, h.Own T i → i < h.acked T n →
    h.upTo T i <+: h.log n ∨ h.Lost T i (h.term n)

/-- A candidate holds them too if a node that confirmed them voted for it, at
least while the vote can still help to elect it. -/
def Inherited (h : History Node Entry) : Prop :=
  ∀ {T i n T' c}, h.Own T i → i < h.acked T n → T < T' → h.vote T' n = some c →
    (∀ l, h.leader T' = some l → n ∈ h.electors T') →
    h.upTo T i <+: h.candidateLog T' c ∨ h.Lost T i (T' - 1)

/-- A candidate at least as up to date as a log with the leader's own entry `i`
holds that entry as well, unless an earlier leader already lost it. -/
theorem upTo_prefix_of_upToDate [DecidableEq Node] {members : Finset Node}
    (hel : Election members h)
    (hm : Matching h) {T i T' : ℕ} {candidate voter : List Entry} (hown : h.Own T i)
    (hheld : h.upTo T i <+: voter) (hvoter : h.Backed voter) (hcand : h.Backed candidate)
    (hterms : ∀ e ∈ candidate, termOf e < T') (hcmp : UpToDate candidate voter) :
    h.upTo T i <+: candidate ∨ h.Lost T i (T' - 1) := by
  obtain ⟨e, he, hterm⟩ := hown
  have hi := History.Own.lt_length ⟨e, he, hterm⟩
  have heU : e ∈ h.upTo T i :=
    List.mem_of_getElem? (i := i) (by rw [History.upTo, List.getElem?_take_of_lt i.lt_succ_self, he])
  -- the voter's last entry is no older than the leader's own entry
  have hvlast : T ≤ lastTerm voter :=
    hterm ▸ termOf_le_lastTerm (hm.sorted_of_backed hvoter) (hheld.subset heU)
  have hle : T ≤ lastTerm candidate := by
    rcases hcmp with hlt | ⟨heq, _⟩
    exacts [hvlast.trans hlt.le, hvlast.trans_eq heq]
  have hpos : 0 < T := by
    obtain ⟨l, hl⟩ := hm.exists_leader (hm.backed_leader T) (List.mem_of_getElem? he)
    exact hel.leader_pos (hterm ▸ hl)
  have hne : candidate ≠ [] := by
    rintro rfl
    exact absurd hle (by simpa using hpos.ne')
  obtain ⟨front, last, rfl⟩ := candidate.eq_nil_or_concat.resolve_left hne
  rw [List.concat_eq_append] at *
  have hlast : lastTerm (front ++ [last]) = termOf last :=
    lastTerm_of_getLast? List.getLast?_concat
  have hmem : last ∈ front ++ [last] := by simp
  have hpre := hcand.prefix_lastTerm hne
  rcases hle.eq_or_lt with heq | hlt
  · -- both logs end in the leader's own term, and the candidate's is the longer one
    left
    rw [← heq] at hpre
    refine List.prefix_of_prefix_length_le (List.take_prefix _ _) hpre ?_
    have hlen : voter.length ≤ (front ++ [last]).length := by
      rcases hcmp with hlt | ⟨_, hlen⟩
      · omega
      · exact hlen
    exact hheld.length_le.trans hlen
  · -- the candidate's last entry comes from a later leader
    obtain ⟨l, hl⟩ := hm.exists_leader hcand hmem
    rw [hlast] at hlt hpre
    by_cases hkept : h.upTo T i <+: h.candidateLog (termOf last) l
    · left
      have hown : h.Own (termOf last) front.length :=
        ⟨last, by simpa using List.prefix_iff_getElem?.mp hpre front.length (by simp), rfl⟩
      have hlen : (h.candidateLog (termOf last) l).length ≤ (front ++ [last]).length :=
        (hown.length_candidateLog_le hm hl).trans (by simp)
      exact hkept.trans (List.prefix_of_prefix_length_le (hm.candidateLog_prefix hl) hpre hlen)
    · right
      exact ⟨termOf last, l, hlt, Nat.le_sub_one_of_lt (hterms last hmem), hl, hkept⟩

section Growth

/-! ### How the two invariants grow

Own entries, confirmations and lost entries only ever become more; the lemmas
compare two histories `h` and `h'` by what `Retained` and `Inherited` read. -/

variable {h' : History Node Entry} {T i : ℕ}

theorem upTo_eq_of_isPrefix (hlog : h.leaderLog T <+: h'.leaderLog T)
    (hi : i < (h.leaderLog T).length) : h'.upTo T i = h.upTo T i := by
  obtain ⟨rest, hrest⟩ := hlog
  rw [History.upTo, History.upTo, ← hrest, List.take_append_of_le_length hi]

theorem History.Own.mono (hown : h.Own T i) (hlog : h.leaderLog T <+: h'.leaderLog T) :
    h'.Own T i := by
  obtain ⟨e, he, hterm⟩ := hown
  obtain ⟨hi, rfl⟩ := List.getElem?_eq_some_iff.mp he
  exact ⟨_, List.prefix_iff_getElem?.mp hlog i hi, hterm⟩

theorem History.Own.of_isPrefix (hown : h'.Own T i) (hlog : h.leaderLog T <+: h'.leaderLog T)
    (hi : i < (h.leaderLog T).length) : h.Own T i := by
  obtain ⟨e, he, hterm⟩ := hown
  refine ⟨e, ?_, hterm⟩
  rw [← he, List.prefix_iff_getElem?.mp hlog i hi, List.getElem?_eq_getElem hi]

/-- A lost entry stays lost as long as leaders keep the logs they stood with. -/
theorem History.Lost.grow {bound : ℕ} (hlost : h.Lost T i bound)
    (hlog : h.leaderLog T <+: h'.leaderLog T) (hi : i < (h.leaderLog T).length)
    (hkeep : ∀ {T' l}, h.leader T' = some l →
      h'.leader T' = some l ∧ h'.candidateLog T' l = h.candidateLog T' l) :
    h'.Lost T i bound := by
  obtain ⟨T', l, hlt, hT', hl, hnot⟩ := hlost
  obtain ⟨hl', hcand⟩ := hkeep hl
  exact ⟨T', l, hlt, hT', hl', by rwa [upTo_eq_of_isPrefix hlog hi, hcand]⟩

end Growth

/-! ## Preservation -/

section Preservation

variable [DecidableEq Node] {members : Finset Node}

theorem Retained.adopt (hr : Retained h) {n : Node} {T : ℕ} (hT : h.term n < T) :
    Retained (h.adopt n T) := by
  intro T₀ i n' hown hi
  refine (hr hown hi).imp_right fun hlost => hlost.mono ?_
  show h.term n' ≤ update h.term n T n'
  by_cases hn : n' = n
  · subst hn
    rw [update_self]
    exact hT.le
  · rw [update_of_ne hn]

/-- Standing for election changes no log a leader stood with. -/
theorem History.Lost.stand (hel : Election members h) {c : Node} {T T₀ i bound : ℕ}
    (hT : h.term c < T) (hi : i < (h.leaderLog T₀).length) (hlost : h.Lost T₀ i bound) :
    (h.stand c T).Lost T₀ i bound := by
  refine hlost.grow List.prefix_rfl hi fun {T' l} hl => ⟨hl, ?_⟩
  refine set₂_of_ne _ _ ?_
  rintro ⟨rfl, rfl⟩
  exact hel.leader_ne hT hl

theorem Retained.stand (hr : Retained h) (hel : Election members h) {c : Node} {T : ℕ}
    (hT : h.term c < T) : Retained (h.stand c T) := by
  intro T₀ i n hown hi
  refine (hr.adopt hT hown hi).imp_right fun hlost => ?_
  exact History.Lost.stand hel hT (History.Own.lt_length hown) hlost

theorem Inherited.stand (hinh : Inherited h) (hr : Retained h) (hel : Election members h)
    {c : Node} {T : ℕ} (hT : h.term c < T) : Inherited (h.stand c T) := by
  intro T₀ i n T' c' hown hi hlt hvote hcount
  have hlen : i < (h.leaderLog T₀).length := History.Own.lt_length hown
  have hown : h.Own T₀ i := hown
  have hi : i < h.acked T₀ n := hi
  by_cases heq : T' = T ∧ n = c
  · -- the new candidate votes for itself, with the log it holds
    obtain ⟨rfl, rfl⟩ := heq
    obtain rfl : n = c' := by simpa [History.stand] using hvote
    simp only [History.stand, set₂_self]
    refine (hr hown hi).imp id fun hlost => ?_
    exact (hlost.mono (Nat.le_sub_one_of_lt hT)).stand hel hT hlen
  · have hold : h.vote T' n = some c' := by
      simpa only [History.stand, set₂_of_ne _ _ heq] using hvote
    have hne : ¬ (T' = T ∧ c' = c) := by
      rintro ⟨rfl, rfl⟩
      exact absurd (hel.vote_le (hel.stood hold)) (not_le_of_gt hT)
    simp only [History.stand, set₂_of_ne _ _ hne]
    refine (hinh hown hi hlt hold hcount).imp id fun hlost => ?_
    exact hlost.stand hel hT hlen

theorem Inherited.grant (hinh : Inherited h) (hr : Retained h) (hel : Election members h)
    (hm : Matching h) {n c : Node} {T : ℕ} (hterm : h.term n = T) (hfree : h.vote T n = none)
    (hcmp : h.leader T = none → UpToDate (h.candidateLog T c) (h.log n)) :
    Inherited (h.grant n c T) := by
  intro T₀ i n' T' c' hown hi hlt hvote hcount
  by_cases heq : T' = T ∧ n' = n
  · obtain ⟨rfl, rfl⟩ := heq
    obtain rfl : c = c' := by simpa [History.grant] using hvote
    have hnone : h.leader T' = none := by
      cases hl : h.leader T' with
      | none => rfl
      | some l =>
          have := hel.elector hl (hcount l hl)
          rw [hfree] at this
          cases this
    rcases hr hown hi with hheld | ⟨T'', l, hlt', hle, hl, hnot⟩
    · exact upTo_prefix_of_upToDate hel hm hown hheld (hm.backed_log n')
        (hm.backed_candidate T' c) (hm.candidate_term T' c) (hcmp hnone)
    · right
      refine ⟨T'', l, hlt', Nat.le_sub_one_of_lt (lt_of_le_of_ne (hterm ▸ hle) ?_), hl, hnot⟩
      rintro rfl
      rw [hnone] at hl
      cases hl
  · have hvote : h.vote T' n' = some c' := by
      simpa only [History.grant, set₂_of_ne _ _ heq] using hvote
    exact hinh hown hi hlt hvote hcount

/-! ### Electing a leader -/

theorem leaderLog_prefix_elect (hm : Matching h) (c : Node) {T : ℕ} (electors : Finset Node)
    (hnone : h.leader T = none) (T' : ℕ) :
    h.leaderLog T' <+: (h.elect c T electors).leaderLog T' := by
  by_cases hT : T' = T
  · subst hT
    rw [hm.leaderless hnone]
    exact List.nil_prefix
  · simp [History.elect, hT]

/-- A fresh leader has no own entries yet. -/
theorem own_of_elect (hm : Matching h) {c : Node} {T T₀ i : ℕ} {electors : Finset Node}
    (hlog : h.candidateLog T c = h.log c) (hown : (h.elect c T electors).Own T₀ i) :
    T₀ ≠ T ∧ h.Own T₀ i := by
  obtain ⟨e, he, hterm⟩ := hown
  have hT : T₀ ≠ T := by
    rintro rfl
    simp only [History.elect, update_self, ← hlog] at he
    exact absurd hterm (hm.candidate_term T₀ c e (List.mem_of_getElem? he)).ne
  exact ⟨hT, e, by simpa [History.elect, hT] using he, hterm⟩

theorem History.Lost.elect (hm : Matching h) {c : Node} {T T₀ i bound : ℕ}
    {electors : Finset Node} (hnone : h.leader T = none) (hi : i < (h.leaderLog T₀).length)
    (hlost : h.Lost T₀ i bound) : (h.elect c T electors).Lost T₀ i bound := by
  refine hlost.grow (leaderLog_prefix_elect hm c electors hnone T₀) hi fun {T' l} hl => ⟨?_, rfl⟩
  have hT : T' ≠ T := by
    rintro rfl
    rw [hnone] at hl
    cases hl
  simpa [History.elect, hT] using hl

theorem Retained.elect (hr : Retained h) (hm : Matching h) {c : Node} {T : ℕ}
    (electors : Finset Node) (hnone : h.leader T = none)
    (hlog : h.candidateLog T c = h.log c) : Retained (h.elect c T electors) := by
  intro T₀ i n hown hi
  obtain ⟨hT, hown⟩ := own_of_elect hm hlog hown
  simp only [History.elect, set₂_apply, hT, false_and, if_false] at hi
  rw [upTo_eq_of_isPrefix (leaderLog_prefix_elect hm c electors hnone T₀) hown.lt_length]
  exact (hr hown hi).imp_right fun hlost => hlost.elect hm hnone hown.lt_length

theorem Inherited.elect (hinh : Inherited h) (hm : Matching h) {c : Node} {T : ℕ}
    (electors : Finset Node) (hnone : h.leader T = none)
    (hlog : h.candidateLog T c = h.log c) : Inherited (h.elect c T electors) := by
  intro T₀ i n T' c' hown hi hlt hvote hcount
  obtain ⟨hT, hown⟩ := own_of_elect hm hlog hown
  simp only [History.elect, set₂_apply, hT, false_and, if_false] at hi
  rw [upTo_eq_of_isPrefix (leaderLog_prefix_elect hm c electors hnone T₀) hown.lt_length]
  refine (hinh hown hi hlt hvote fun l hl => ?_).imp id fun hlost =>
    hlost.elect hm hnone hown.lt_length
  have hT' : T' ≠ T := by
    rintro rfl
    rw [hnone] at hl
    cases hl
  simpa [History.elect, hT'] using hcount l (by simpa [History.elect, hT'] using hl)

/-! ### Growing the leader's log -/

theorem History.Lost.append {c : Node} {T T₀ i bound : ℕ} {e : Entry}
    (hi : i < (h.leaderLog T₀).length) (hlost : h.Lost T₀ i bound) :
    (h.append c T e).Lost T₀ i bound :=
  hlost.grow (Matching.leaderLog_prefix_append c T e T₀) hi fun hl => ⟨hl, rfl⟩

/-- Nobody but the leader confirmed the new entry yet. -/
theorem own_of_append (ha : Acks h) {c n : Node} {T T₀ i : ℕ} {e : Entry}
    (hne : ¬ (T₀ = T ∧ n = c)) (hown : (h.append c T e).Own T₀ i)
    (hi : i < (h.append c T e).acked T₀ n) : i < h.acked T₀ n ∧ h.Own T₀ i := by
  have hi : i < h.acked T₀ n := by
    simpa only [History.append, set₂_of_ne _ _ hne] using hi
  exact ⟨hi, hown.of_isPrefix (Matching.leaderLog_prefix_append c T e T₀)
    (hi.trans_le (ha.le_length T₀ n))⟩

theorem Retained.append (hr : Retained h) (hm : Matching h) (ha : Acks h) {c : Node} {T : ℕ}
    (e : Entry) (hl : h.leader T = some c) (hterm : h.term c = T) :
    Retained (h.append c T e) := by
  intro T₀ i n hown hi
  by_cases heq : T₀ = T ∧ n = c
  · obtain ⟨rfl, rfl⟩ := heq
    left
    have hlog : h.log n = h.leaderLog T₀ := hm.leading hl hterm
    simp only [History.append, History.upTo, update_self, hlog]
    exact List.take_prefix _ _
  · obtain ⟨hi, hown⟩ := own_of_append ha heq hown hi
    rw [upTo_eq_of_isPrefix (Matching.leaderLog_prefix_append c T e T₀) hown.lt_length]
    refine (hr hown hi).imp (fun hheld => hheld.trans ?_) fun hlost =>
      hlost.append hown.lt_length
    show h.log n <+: update h.log c (h.log c ++ [e]) n
    by_cases hn : n = c
    · subst hn
      rw [update_self]
      exact List.prefix_append _ _
    · rw [update_of_ne hn]

theorem Inherited.append (hinh : Inherited h) (hel : Election members h) (ha : Acks h)
    {c : Node} {T : ℕ} (e : Entry) (hterm : h.term c = T) : Inherited (h.append c T e) := by
  intro T₀ i n T' c' hown hi hlt hvote hcount
  have heq : ¬ (T₀ = T ∧ n = c) := by
    rintro ⟨rfl, rfl⟩
    exact absurd (hel.vote_le hvote) (not_le_of_gt (hterm ▸ hlt))
  obtain ⟨hi, hown⟩ := own_of_append ha heq hown hi
  rw [upTo_eq_of_isPrefix (Matching.leaderLog_prefix_append c T e T₀) hown.lt_length]
  exact (hinh hown hi hlt hvote hcount).imp_right fun hlost => hlost.append hown.lt_length

/-! ### Taking over the leader's log -/

theorem Retained.accept (hr : Retained h) (hm : Matching h) (ha : Acks h) {n l : Node} {T : ℕ}
    {L : List Entry} {k : ℕ} (hl : h.leader T = some l) (hterm : h.term n = T)
    (hmerge : Merge (h.log n) L (h.leaderLog T) k) : Retained (h.accept n T L k) := by
  intro T₀ i n' hown hi
  have hown : h.Own T₀ i := hown
  by_cases hn : n' = n
  · subst hn
    by_cases hT : T₀ = T
    · subst hT
      left
      have hheld := (ha.accept hterm hmerge).held (n := n') (T := T₀) hterm
      exact (List.take_prefix_take_left (Nat.succ_le_of_lt hi)).trans hheld
    · have hi : i < h.acked T₀ n' := by
        simpa [History.accept, set₂_apply, hT] using hi
      have hlt : T₀ < T :=
        lt_of_le_of_ne (hterm ▸ ha.term_le ((Nat.zero_le i).trans_lt hi)) hT
      rcases hr hown hi with hheld | hlost
      · rcases hmerge.2 with ⟨rfl, _⟩ | ⟨rfl, hnot⟩
        · left
          show h.upTo T₀ i <+: update h.log n' (h.log n') n'
          rwa [update_self]
        · by_cases hkept : h.upTo T₀ i <+: h.candidateLog T l
          · left
            have hlead := hkept.trans (hm.candidateLog_prefix hl)
            simp only [History.accept, update_self]
            refine List.prefix_of_prefix_length_le hlead (List.take_prefix _ _) ?_
            -- otherwise the node already held the first `k` entries
            by_contra hshort
            exact hnot ((List.prefix_of_prefix_length_le (List.take_prefix _ _) hlead
              (not_le.mp hshort).le).trans hheld)
          · right
            exact ⟨T, l, hlt, hterm.ge, hl, hkept⟩
      · exact Or.inr hlost
  · have heq : ¬ (T₀ = T ∧ n' = n) := fun hand => hn hand.2
    simp only [History.accept, set₂_of_ne _ _ heq, update_of_ne hn] at hi ⊢
    exact hr hown hi

theorem Inherited.accept (hinh : Inherited h) (hel : Election members h) {n : Node} {T : ℕ}
    (L : List Entry) (k : ℕ) (hterm : h.term n = T) : Inherited (h.accept n T L k) := by
  intro T₀ i n' T' c' hown hi hlt hvote hcount
  have heq : ¬ (T₀ = T ∧ n' = n) := by
    rintro ⟨rfl, rfl⟩
    exact absurd (hel.vote_le hvote) (not_le_of_gt (hterm ▸ hlt))
  simp only [History.accept, set₂_of_ne _ _ heq] at hi
  exact hinh hown hi hlt hvote hcount

end Preservation

/-! ## Leader completeness -/

section Completeness

variable [DecidableEq Node] {members : Finset Node} {T i : ℕ}

/-- **Leader completeness.**  Every later leader stood with what a majority
confirmed of a leader's own entries. -/
theorem Inherited.candidateLog_prefix (hinh : Inherited h) (hel : Election members h)
    (hchosen : h.Chosen members T i) {T' : ℕ} {l : Node} (hlt : T < T')
    (hl : h.leader T' = some l) : h.upTo T i <+: h.candidateLog T' l := by
  obtain ⟨hown, voters, hmaj, hacked⟩ := hchosen
  induction T' using Nat.strong_induction_on generalizing l with
  | _ T' ih =>
    obtain ⟨n, hn⟩ := (hel.majority hl).inter_nonempty hmaj
    rw [Finset.mem_inter] at hn
    rcases hinh hown (hacked n hn.2) hlt (hel.elector hl hn.1) fun _ _ => hn.1 with
      hheld | ⟨T'', l', hlt', hle, hl', hnot⟩
    · exact hheld
    · exact absurd (ih T'' (by omega) hlt' hl') hnot

theorem Inherited.leaderLog_prefix (hinh : Inherited h) (hel : Election members h)
    (hm : Matching h) (hchosen : h.Chosen members T i) {T' : ℕ} {l : Node} (hle : T ≤ T')
    (hl : h.leader T' = some l) : h.upTo T i <+: h.leaderLog T' := by
  rcases hle.eq_or_lt with rfl | hlt
  · exact List.take_prefix _ _
  · exact (hinh.candidateLog_prefix hel hchosen hlt hl).trans (hm.candidateLog_prefix hl)

/-- Who confirmed a chosen entry still holds it. -/
theorem Retained.log_prefix (hr : Retained h) (hinh : Inherited h) (hel : Election members h)
    (hchosen : h.Chosen members T i) {n : Node} (hn : i < h.acked T n) :
    h.upTo T i <+: h.log n := by
  rcases hr hchosen.1 hn with hheld | ⟨T', l, hlt, _, hl, hnot⟩
  · exact hheld
  · exact absurd (hinh.candidateLog_prefix hel hchosen hlt hl) hnot

/-- Chosen logs agree: what is chosen at a position is chosen once and for all. -/
theorem Inherited.chosen_agree (hinh : Inherited h) (hel : Election members h) (hm : Matching h)
    {T' i' j : ℕ} (hchosen : h.Chosen members T i) (hchosen' : h.Chosen members T' i')
    (hj : j ≤ i) (hj' : j ≤ i') : (h.leaderLog T)[j]? = (h.leaderLog T')[j]? := by
  wlog hle : T ≤ T' generalizing T T' i i'
  · exact (this hchosen' hchosen hj' hj (not_le.mp hle).le).symm
  obtain ⟨e, he, hterm⟩ := hchosen'.1
  obtain ⟨l, hl⟩ := hm.exists_leader (hm.backed_leader T') (List.mem_of_getElem? he)
  have hpre := hinh.leaderLog_prefix hel hm hchosen hle (hterm ▸ hl)
  have hlen := hchosen.1.lt_length
  have hjU : j < (h.upTo T i).length := by rw [History.length_upTo hlen]; omega
  rw [List.prefix_iff_getElem?.mp hpre j hjU, List.getElem?_eq_getElem (by omega)]
  simp [History.upTo]

/-- Chosen entries stay chosen while logs and confirmations grow. -/
theorem History.Chosen.grow {h' : History Node Entry} (hchosen : h.Chosen members T i)
    (hlog : h.leaderLog T <+: h'.leaderLog T) (hacked : ∀ n, h.acked T n ≤ h'.acked T n) :
    h'.Chosen members T i := by
  obtain ⟨hown, voters, hmaj, hvoters⟩ := hchosen
  exact ⟨hown.mono hlog, voters, hmaj, fun n hn => (hvoters n hn).trans_le (hacked n)⟩

end Completeness

end Vosfs.Consensus
