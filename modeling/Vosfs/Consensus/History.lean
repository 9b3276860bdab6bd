import Mathlib.Logic.Function.Basic
import Vosfs.Consensus.Quorum

/-!
# The history of a replicated log with one leader per term

Nodes hold a current term and a log.  In each term a node may give one vote, a
candidate with a majority of votes leads the term, and the entries a leader
creates carry its term.  A `History` records what the nodes themselves forget:
all votes ever given, the log each candidate stood with, the log of each term's
leader, and how much of that log each node confirmed while in the term.

The operations below are the only ways a history grows; which of them is allowed
when is stated with the invariants they preserve (`Election.lean`,
`Matching.lean`, `Completeness.lean`).  Nothing here mentions messages: a
protocol that exchanges messages is connected to this file by showing that each
of its steps performs some of these operations.
-/

namespace Vosfs.Consensus

open Function

/-- Log entries carry the term whose leader created them. -/
class HasTerm (Entry : Type*) where
  termOf : Entry → ℕ

export HasTerm (termOf)

/-- What has happened so far, term by term. -/
structure History (Node Entry : Type*) where
  /-- The current term of a node. -/
  term : Node → ℕ
  /-- `vote T n` is the candidate `n` voted for in term `T`. -/
  vote : ℕ → Node → Option Node
  /-- The leader of a term, once elected. -/
  leader : ℕ → Option Node
  /-- The voters that made the leader of a term. -/
  electors : ℕ → Finset Node
  /-- The log with which a node stood for election in a term. -/
  candidateLog : ℕ → Node → List Entry
  /-- The log of the leader of a term, as far as it grew in that term. -/
  leaderLog : ℕ → List Entry
  /-- The log a node holds now. -/
  log : Node → List Entry
  /-- `acked T n` entries of `leaderLog T` were confirmed by `n` in term `T`. -/
  acked : ℕ → Node → ℕ

variable {Node Entry : Type*}

/-- Change a table indexed by term and node at one place. -/
def set₂ {α : Type*} [DecidableEq Node] (table : ℕ → Node → α) (T : ℕ) (n : Node) (v : α) :
    ℕ → Node → α :=
  update table T (update (table T) n v)

theorem set₂_apply {α : Type*} [DecidableEq Node] (table : ℕ → Node → α) (T T' : ℕ)
    (n n' : Node) (v : α) :
    set₂ table T n v T' n' = if T' = T ∧ n' = n then v else table T' n' := by
  by_cases hT : T' = T
  · subst hT
    by_cases hn : n' = n <;> simp [set₂, hn]
  · simp [set₂, hT]

@[simp] theorem set₂_self {α : Type*} [DecidableEq Node] (table : ℕ → Node → α) (T : ℕ)
    (n : Node) (v : α) : set₂ table T n v T n = v := by
  simp [set₂_apply]

theorem set₂_of_ne {α : Type*} [DecidableEq Node] (table : ℕ → Node → α) {T T' : ℕ}
    {n n' : Node} (v : α) (hne : ¬ (T' = T ∧ n' = n)) :
    set₂ table T n v T' n' = table T' n' := by
  rw [set₂_apply, if_neg hne]

namespace History

variable [DecidableEq Node]

/-- The history before anything happened. -/
def empty : History Node Entry where
  term _ := 0
  vote _ _ := none
  leader _ := none
  electors _ := ∅
  candidateLog _ _ := []
  leaderLog _ := []
  log _ := []
  acked _ _ := 0

/-- `n` moves to term `T`. -/
def adopt (h : History Node Entry) (n : Node) (T : ℕ) : History Node Entry :=
  { h with term := update h.term n T }

/-- `c` moves to term `T`, stands for election with its log, and votes for itself. -/
def stand (h : History Node Entry) (c : Node) (T : ℕ) : History Node Entry :=
  { h with
    term := update h.term c T
    vote := set₂ h.vote T c (some c)
    candidateLog := set₂ h.candidateLog T c (h.log c) }

/-- `n` votes for `c` in term `T`. -/
def grant (h : History Node Entry) (n c : Node) (T : ℕ) : History Node Entry :=
  { h with vote := set₂ h.vote T n (some c) }

/-- `electors` make `c` the leader of term `T`. -/
def elect (h : History Node Entry) (c : Node) (T : ℕ) (electors : Finset Node) :
    History Node Entry :=
  { h with
    leader := update h.leader T (some c)
    electors := update h.electors T electors
    leaderLog := update h.leaderLog T (h.log c)
    acked := set₂ h.acked T c (h.log c).length }

/-- The leader `c` of term `T` creates the entry `e`. -/
def append (h : History Node Entry) (c : Node) (T : ℕ) (e : Entry) : History Node Entry :=
  { h with
    leaderLog := update h.leaderLog T (h.leaderLog T ++ [e])
    log := update h.log c (h.log c ++ [e])
    acked := set₂ h.acked T c (h.log c ++ [e]).length }

/-- In term `T`, `n` replaces its log by `L` and confirms `k` entries of the leader's log. -/
def accept (h : History Node Entry) (n : Node) (T : ℕ) (L : List Entry) (k : ℕ) :
    History Node Entry :=
  { h with
    log := update h.log n L
    acked := set₂ h.acked T n (max (h.acked T n) k) }

end History

/-- What a node makes of the first `k` entries of its leader's log: if it holds
them already it keeps its own log, and otherwise it takes over exactly those. -/
def Merge (old new lead : List Entry) (k : ℕ) : Prop :=
  k ≤ lead.length ∧
    ((new = old ∧ lead.take k <+: old) ∨ (new = lead.take k ∧ ¬ lead.take k <+: old))

/-! ## The last entry -/

variable [HasTerm Entry]

/-- The term of the last entry, `0` for an empty log. -/
def lastTerm (L : List Entry) : ℕ :=
  match L.getLast? with
  | none => 0
  | some e => termOf e

@[simp] theorem lastTerm_nil : lastTerm ([] : List Entry) = 0 := rfl

theorem lastTerm_of_getLast? {L : List Entry} {e : Entry} (he : L.getLast? = some e) :
    lastTerm L = termOf e := by
  simp [lastTerm, he]

/-- In a log with ascending terms no entry has a later term than the last one. -/
theorem termOf_le_lastTerm {L : List Entry}
    (hsorted : L.Pairwise fun earlier later => termOf earlier ≤ termOf later) {e : Entry}
    (he : e ∈ L) : termOf e ≤ lastTerm L := by
  rcases L.eq_nil_or_concat with rfl | ⟨front, last, rfl⟩
  · cases he
  · rw [List.concat_eq_append] at hsorted he ⊢
    rw [lastTerm_of_getLast? (List.getLast?_concat ..)]
    rcases List.mem_append.mp he with hfront | hlast
    · exact (List.pairwise_append.mp hsorted).2.2 e hfront last (List.mem_singleton_self last)
    · rw [List.mem_singleton.mp hlast]

/-- One log is at least as up to date as another if its last term is later, or
the same and it is at least as long. -/
def UpToDate (candidate voter : List Entry) : Prop :=
  lastTerm voter < lastTerm candidate ∨
    (lastTerm voter = lastTerm candidate ∧ voter.length ≤ candidate.length)

end Vosfs.Consensus
