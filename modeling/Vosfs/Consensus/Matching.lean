import Vosfs.Consensus.Election

/-!
# Log matching

Every prefix of a log that ends in an entry of term `t` is a prefix of the log of
the leader of `t` (`History.Backed`).  Two logs with entries of one term at one
position therefore agree up to it (`History.Backed.agree`).  The invariant `Matching`
says that all logs of a history are backed, together with what is needed to keep
it so: terms are bounded and ascend, and a leader's log is the log it stood with
followed by entries of its own term.
-/

namespace Vosfs.Consensus

open Function

variable {Node Entry : Type*} [HasTerm Entry] {h : History Node Entry}

/-- Each prefix of `L` that ends in an entry of term `t` is a prefix of the log
of the leader of `t`. -/
def History.Backed (h : History Node Entry) (L : List Entry) : Prop :=
  ∀ i e, L[i]? = some e → L.take (i + 1) <+: h.leaderLog (termOf e)

namespace History.Backed

theorem nil : h.Backed [] := by
  intro i e he
  simp at he

theorem of_isPrefix {L L' : List Entry} (hb : h.Backed L) (hpre : L' <+: L) : h.Backed L' := by
  intro i e he
  obtain ⟨hi, rfl⟩ := List.getElem?_eq_some_iff.mp he
  have heL : L[i]? = some L'[i] := by
    rw [hpre.getElem hi]
    exact List.getElem?_eq_getElem _
  have htake : L'.take (i + 1) = L.take (i + 1) :=
    (hpre.take (i + 1)).eq_of_length (by
      have := hpre.length_le
      simp only [List.length_take]
      omega)
  rw [htake]
  exact hb i _ heL

theorem mono {h' : History Node Entry} {L : List Entry} (hb : h.Backed L)
    (hlog : ∀ T, h.leaderLog T <+: h'.leaderLog T) : h'.Backed L :=
  fun i e he => (hb i e he).trans (hlog _)

/-- **Log matching.**  Backed logs with entries of one term at one position agree
up to that position. -/
theorem agree {L L' : List Entry} (hb : h.Backed L) (hb' : h.Backed L') {i : ℕ} {e e' : Entry}
    (he : L[i]? = some e) (he' : L'[i]? = some e') (hterm : termOf e = termOf e') :
    L.take (i + 1) = L'.take (i + 1) := by
  have hpre := hb i e he
  have hpre' := hb' i e' he'
  rw [← hterm] at hpre'
  have hi : i < L.length := (List.getElem?_eq_some_iff.mp he).1
  have hi' : i < L'.length := (List.getElem?_eq_some_iff.mp he').1
  have hlen : (L.take (i + 1)).length = (L'.take (i + 1)).length := by
    simp only [List.length_take]
    omega
  exact (List.prefix_of_prefix_length_le hpre hpre' hlen.le).eq_of_length hlen

/-- Backed logs agree up to a position where they have the same last term. -/
theorem take_eq_of_lastTerm {L L' : List Entry} (hb : h.Backed L) (hb' : h.Backed L') {n : ℕ}
    (hn : n ≤ L.length) (hn' : n ≤ L'.length)
    (hterm : lastTerm (L.take n) = lastTerm (L'.take n)) : L.take n = L'.take n := by
  cases n with
  | zero => simp
  | succ i =>
    have hlast : ∀ {L : List Entry} (hi : i < L.length),
        lastTerm (L.take (i + 1)) = termOf L[i] := by
      intro L hi
      refine lastTerm_of_getLast? ?_
      rw [List.getLast?_take]
      simp [List.getElem?_eq_getElem hi]
    rw [hlast hn, hlast hn'] at hterm
    exact hb.agree hb' (List.getElem?_eq_getElem hn) (List.getElem?_eq_getElem hn') hterm

/-- A nonempty backed log is a prefix of the log of its last leader. -/
theorem prefix_lastTerm {L : List Entry} (hb : h.Backed L) (hne : L ≠ []) :
    L <+: h.leaderLog (lastTerm L) := by
  have hlast := List.getLast?_eq_some_getLast hne
  have hpos := List.length_pos_of_ne_nil hne
  have := hb (L.length - 1) (L.getLast hne) (by rw [← hlast, List.getLast?_eq_getElem?])
  rwa [Nat.sub_add_cancel hpos, List.take_length, ← lastTerm_of_getLast? hlast] at this

theorem leaderLog_ne_nil {L : List Entry} (hb : h.Backed L) {e : Entry} (he : e ∈ L) :
    h.leaderLog (termOf e) ≠ [] := by
  obtain ⟨i, hi, rfl⟩ := List.getElem_of_mem he
  intro hnil
  have hpre := hb i _ (List.getElem?_eq_getElem hi)
  rw [hnil, List.prefix_nil] at hpre
  have : (L.take (i + 1)).length = 0 := by rw [hpre]; rfl
  rw [List.length_take] at this
  omega

end History.Backed

/-- The log part of a history. -/
structure Matching (h : History Node Entry) : Prop where
  backed_log : ∀ n, h.Backed (h.log n)
  backed_candidate : ∀ T c, h.Backed (h.candidateLog T c)
  backed_leader : ∀ T, h.Backed (h.leaderLog T)
  log_term : ∀ n, ∀ e ∈ h.log n, termOf e ≤ h.term n
  candidate_term : ∀ T c, ∀ e ∈ h.candidateLog T c, termOf e < T
  leader_sorted : ∀ T, (h.leaderLog T).Pairwise fun earlier later =>
    termOf earlier ≤ termOf later
  leader_term : ∀ T, ∀ e ∈ h.leaderLog T, termOf e ≤ T
  /-- A leader's log starts with the log it stood with and goes on with its own entries. -/
  leader_split : ∀ {T l}, h.leader T = some l →
    ∃ own, h.leaderLog T = h.candidateLog T l ++ own ∧ ∀ e ∈ own, termOf e = T
  leaderless : ∀ {T}, h.leader T = none → h.leaderLog T = []
  /-- While in its term, the leader holds the leader's log. -/
  leading : ∀ {T l}, h.leader T = some l → h.term l = T → h.log l = h.leaderLog T

namespace Matching

theorem empty : Matching (History.empty : History Node Entry) where
  backed_log _ := History.Backed.nil
  backed_candidate _ _ := History.Backed.nil
  backed_leader _ := History.Backed.nil
  log_term := by simp [History.empty]
  candidate_term := by simp [History.empty]
  leader_sorted := by simp [History.empty]
  leader_term := by simp [History.empty]
  leader_split := by simp [History.empty]
  leaderless := by simp [History.empty]
  leading := by simp [History.empty]

theorem sorted_of_backed (hm : Matching h) {L : List Entry} (hb : h.Backed L) :
    L.Pairwise fun earlier later => termOf earlier ≤ termOf later := by
  rcases L.eq_nil_or_concat with rfl | ⟨front, last, rfl⟩
  · exact List.Pairwise.nil
  · exact (hm.leader_sorted _).sublist
      (hb.prefix_lastTerm (by simp)).sublist

theorem candidateLog_prefix (hm : Matching h) {T : ℕ} {l : Node} (hl : h.leader T = some l) :
    h.candidateLog T l <+: h.leaderLog T := by
  obtain ⟨own, hown, _⟩ := hm.leader_split hl
  rw [hown]
  exact List.prefix_append _ _

/-- Entries of a term without a leader do not exist. -/
theorem exists_leader (hm : Matching h) {L : List Entry} (hb : h.Backed L) {e : Entry}
    (he : e ∈ L) : ∃ l, h.leader (termOf e) = some l := by
  cases hl : h.leader (termOf e) with
  | none => exact absurd (hm.leaderless hl) (hb.leaderLog_ne_nil he)
  | some l => exact ⟨l, rfl⟩

/-! ## Preservation -/

variable [DecidableEq Node] {members : Finset Node}

theorem adopt (hm : Matching h) (hel : Election members h) {n : Node} {T : ℕ}
    (hT : h.term n < T) : Matching (h.adopt n T) where
  backed_log := hm.backed_log
  backed_candidate := hm.backed_candidate
  backed_leader := hm.backed_leader
  log_term := by
    intro n' e he
    have hle := hm.log_term n' e he
    show termOf e ≤ update h.term n T n'
    by_cases hn : n' = n
    · subst hn
      rw [update_self]
      exact hle.trans hT.le
    · rwa [update_of_ne hn]
  candidate_term := hm.candidate_term
  leader_sorted := hm.leader_sorted
  leader_term := hm.leader_term
  leader_split := hm.leader_split
  leaderless := hm.leaderless
  leading := by
    intro T' l hl hterm
    by_cases hn : l = n
    · subst hn
      simp only [History.adopt, update_self] at hterm
      exact absurd hl (hel.leader_ne (hterm ▸ hT))
    · simp only [History.adopt, update_of_ne hn] at hterm
      exact hm.leading hl hterm

theorem stand (hm : Matching h) (hel : Election members h) {c : Node} {T : ℕ}
    (hT : h.term c < T) : Matching (h.stand c T) where
  backed_log := hm.backed_log
  backed_candidate := by
    intro T' c'
    show h.Backed (set₂ h.candidateLog T c (h.log c) T' c')
    rw [set₂_apply]
    split
    · exact hm.backed_log c
    · exact hm.backed_candidate T' c'
  backed_leader := hm.backed_leader
  log_term := (hm.adopt hel hT).log_term
  candidate_term := by
    intro T' c' e he
    simp only [History.stand, set₂_apply] at he
    split at he
    next heq => exact heq.1 ▸ (hm.log_term c e he).trans_lt hT
    next => exact hm.candidate_term T' c' e he
  leader_sorted := hm.leader_sorted
  leader_term := hm.leader_term
  leader_split := by
    intro T' l hl
    have hne : ¬ (T' = T ∧ l = c) := by
      rintro ⟨rfl, rfl⟩
      exact hel.leader_ne hT hl
    show ∃ own, h.leaderLog T' = set₂ h.candidateLog T c (h.log c) T' l ++ own ∧ _
    rw [set₂_of_ne _ _ hne]
    exact hm.leader_split hl
  leaderless := hm.leaderless
  leading := (hm.adopt hel hT).leading

theorem grant (hm : Matching h) (n c : Node) (T : ℕ) : Matching (h.grant n c T) :=
  ⟨hm.backed_log, hm.backed_candidate, hm.backed_leader, hm.log_term, hm.candidate_term,
    hm.leader_sorted, hm.leader_term, hm.leader_split, hm.leaderless, hm.leading⟩

/-- Electing the leader of a leaderless term leaves backed logs backed: none of
them has an entry of that term. -/
theorem backed_elect (hm : Matching h) {c : Node} {T : ℕ} (electors : Finset Node)
    (hnone : h.leader T = none) {L : List Entry} (hb : h.Backed L) :
    (h.elect c T electors).Backed L := by
  refine hb.mono fun T' => ?_
  by_cases hT : T' = T
  · subst hT
    rw [hm.leaderless hnone]
    exact List.nil_prefix
  · simp [History.elect, hT]

theorem elect (hm : Matching h) {c : Node} {T : ℕ} (electors : Finset Node)
    (hterm : h.term c = T) (hnone : h.leader T = none)
    (hlog : h.candidateLog T c = h.log c) : Matching (h.elect c T electors) where
  backed_log n := hm.backed_elect electors hnone (hm.backed_log n)
  backed_candidate T' c' := hm.backed_elect electors hnone (hm.backed_candidate T' c')
  backed_leader := by
    refine fun T' => hm.backed_elect electors hnone ?_
    exact (forall_update_iff _ fun _ L => h.Backed L).mpr
      ⟨hm.backed_log c, fun T' _ => hm.backed_leader T'⟩ T'
  log_term := hm.log_term
  candidate_term := hm.candidate_term
  leader_sorted := by
    exact (forall_update_iff _ fun _ L => List.Pairwise (fun earlier later =>
        termOf earlier ≤ termOf later) L).mpr
      ⟨hm.sorted_of_backed (hm.backed_log c), fun T' _ => hm.leader_sorted T'⟩
  leader_term := by
    intro T' e he
    by_cases hT : T' = T
    · subst hT
      simp only [History.elect, update_self, ← hlog] at he
      exact (hm.candidate_term _ c e he).le
    · simp only [History.elect, update_of_ne hT] at he
      exact hm.leader_term T' e he
  leader_split := by
    intro T' l hl
    by_cases hT : T' = T
    · subst hT
      simp only [History.elect, update_self, Option.some.injEq] at hl ⊢
      subst hl
      exact ⟨[], by rw [hlog, List.append_nil], by simp⟩
    · simp only [History.elect, update_of_ne hT] at hl ⊢
      exact hm.leader_split hl
  leaderless := by
    intro T' hl
    by_cases hT : T' = T
    · subst hT
      simp [History.elect] at hl
    · simp only [History.elect, update_of_ne hT] at hl ⊢
      exact hm.leaderless hl
  leading := by
    intro T' l hl hterm'
    by_cases hT : T' = T
    · subst hT
      simp only [History.elect, update_self, Option.some.injEq] at hl ⊢
      rw [hl]
    · simp only [History.elect, update_of_ne hT] at hl ⊢
      exact hm.leading hl hterm'

omit [HasTerm Entry] in
theorem leaderLog_prefix_append (c : Node) (T : ℕ) (e : Entry) (T' : ℕ) :
    h.leaderLog T' <+: (h.append c T e).leaderLog T' := by
  show h.leaderLog T' <+: update h.leaderLog T (h.leaderLog T ++ [e]) T'
  by_cases hT : T' = T
  · subst hT
    rw [update_self]
    exact List.prefix_append _ _
  · rw [update_of_ne hT]

theorem append (hm : Matching h) {c : Node} {T : ℕ} {e : Entry} (hl : h.leader T = some c)
    (hterm : h.term c = T) (he : termOf e = T) : Matching (h.append c T e) := by
  have hlog : h.log c = h.leaderLog T := hm.leading hl hterm
  have hgrow : ∀ {L}, h.Backed L → (h.append c T e).Backed L := fun hb =>
    hb.mono (leaderLog_prefix_append c T e)
  have hnew : (h.append c T e).Backed (h.leaderLog T ++ [e]) := by
    intro i e' he'
    rcases Nat.lt_or_ge i (h.leaderLog T).length with hi | hi
    · rw [List.getElem?_append_left hi] at he'
      rw [List.take_append_of_le_length hi]
      exact hgrow (hm.backed_leader T) i e' he'
    · obtain ⟨hi', rfl⟩ := List.getElem?_eq_some_iff.mp he'
      rw [List.length_append, List.length_singleton] at hi'
      obtain rfl : i = (h.leaderLog T).length := by omega
      rw [List.getElem_append_right (Nat.le_refl _)]
      simp only [History.append, Nat.sub_self, List.getElem_cons_zero, he, update_self]
      exact List.take_prefix _ _
  constructor
  case backed_log =>
    exact (forall_update_iff _ fun _ L => (h.append c T e).Backed L).mpr
      ⟨hlog ▸ hnew, fun n _ => hgrow (hm.backed_log n)⟩
  case backed_candidate => exact fun T' c' => hgrow (hm.backed_candidate T' c')
  case backed_leader =>
    exact (forall_update_iff _ fun _ L => (h.append c T e).Backed L).mpr
      ⟨hnew, fun T' _ => hgrow (hm.backed_leader T')⟩
  case log_term =>
    refine (forall_update_iff _ fun n L => ∀ e ∈ L, termOf e ≤ h.term n).mpr
      ⟨fun e' he' => ?_, fun n _ => hm.log_term n⟩
    rcases List.mem_append.mp he' with hold | hnew
    · exact hm.log_term c e' hold
    · rw [List.mem_singleton.mp hnew, he, hterm]
  case candidate_term => exact hm.candidate_term
  case leader_sorted =>
    refine (forall_update_iff _ fun _ L => List.Pairwise (fun earlier later =>
      termOf earlier ≤ termOf later) L).mpr ⟨?_, fun T' _ => hm.leader_sorted T'⟩
    refine List.pairwise_append.mpr ⟨hm.leader_sorted _, List.pairwise_singleton _ _, ?_⟩
    intro e' he' e'' he''
    rw [List.mem_singleton.mp he'', he]
    exact hm.leader_term _ e' he'
  case leader_term =>
    refine (forall_update_iff _ fun T' L => ∀ e ∈ L, termOf e ≤ T').mpr
      ⟨fun e' he' => ?_, fun T' _ => hm.leader_term T'⟩
    rcases List.mem_append.mp he' with hold | hnew
    · exact hm.leader_term T e' hold
    · rw [List.mem_singleton.mp hnew, he]
  case leader_split =>
    intro T' l hl'
    obtain ⟨own, hown, hterms⟩ := hm.leader_split hl'
    by_cases hT : T' = T
    · subst hT
      refine ⟨own ++ [e], ?_, ?_⟩
      · simp only [History.append, update_self, hown, List.append_assoc]
      · intro e' he'
        rcases List.mem_append.mp he' with hold | hnew
        · exact hterms e' hold
        · rw [List.mem_singleton.mp hnew, he]
    · exact ⟨own, by simpa only [History.append, update_of_ne hT] using hown, hterms⟩
  case leaderless =>
    intro T' hl'
    by_cases hT : T' = T
    · subst hT
      rw [show (h.append c T' e).leader = h.leader from rfl, hl] at hl'
      cases hl'
    · simp only [History.append, update_of_ne hT]
      exact hm.leaderless hl'
  case leading =>
    intro T' l hl' hterm'
    by_cases hT : T' = T
    · subst hT
      obtain rfl : c = l := Option.some.inj (hl.symm.trans hl')
      simp only [History.append, update_self, hlog]
    · have hne : l ≠ c := by
        rintro rfl
        exact hT (hterm'.symm.trans hterm)
      simp only [History.append, update_of_ne hT, update_of_ne hne]
      exact hm.leading hl' hterm'

theorem accept (hm : Matching h) {n l : Node} {T : ℕ} {L : List Entry} {k : ℕ}
    (hl : h.leader T = some l) (hne : n ≠ l) (hterm : h.term n = T)
    (hmerge : Merge (h.log n) L (h.leaderLog T) k) : Matching (h.accept n T L k) := by
  have hL : h.Backed L ∧ ∀ e ∈ L, termOf e ≤ T := by
    rcases hmerge.2 with ⟨rfl, _⟩ | ⟨rfl, _⟩
    · exact ⟨hm.backed_log n, hterm ▸ hm.log_term n⟩
    · exact ⟨(hm.backed_leader T).of_isPrefix (List.take_prefix _ _),
        fun e he => hm.leader_term T e (List.mem_of_mem_take he)⟩
  refine ⟨?_, hm.backed_candidate, hm.backed_leader, ?_, hm.candidate_term, hm.leader_sorted,
    hm.leader_term, hm.leader_split, hm.leaderless, ?_⟩
  · exact (forall_update_iff _ fun _ L => h.Backed L).mpr ⟨hL.1, fun n' _ => hm.backed_log n'⟩
  · exact (forall_update_iff _ fun n' L => ∀ e ∈ L, termOf e ≤ h.term n').mpr
      ⟨fun e he => (hL.2 e he).trans_eq hterm.symm, fun n' _ => hm.log_term n'⟩
  · intro T' l' hl' hterm'
    have hn : l' ≠ n := by
      rintro rfl
      obtain rfl : T' = T := hterm'.symm.trans hterm
      exact hne (Option.some.inj (hl'.symm.trans hl))
    simp only [History.accept, update_of_ne hn]
    exact hm.leading hl' hterm'

end Matching

end Vosfs.Consensus
