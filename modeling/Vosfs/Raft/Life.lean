import Vosfs.Raft.Writes

/-!
# The lives of a node

A node reacts to any inputs in any order, with any messages, dies at any moment, and is
started again on what its disk holds.  The messages need not come from a cluster.
-/

namespace Vosfs.Raft

/-- A node from its first start on. -/
structure Life where
  node : RaftNode
  /-- History: the votes given, by term and candidate. -/
  votes : List (ℕ × ℕ) := []

/-- An input is handled, or a crash in the middle of one is followed by a restart. -/
inductive Event
  | handle (env : Env) (input : Input)
  | restart (env : Env) (input : Input) (lost : ℕ)

/-- The vote a node gives in a step: to itself, or to the candidate that asks. -/
def RaftNode.votesGiven (env : Env) (node : RaftNode) : Input → List (ℕ × ℕ)
  | .electionTimeout =>
    if TimedOut env node ∧ node.role ≠ .leader then
      [(node.startElection.currentTerm, node.memberId)]
    else
      []
  | .deliver _ (.requestVoteRequest request) =>
    let response := (node.handleRequestVoteRequest env request).2
    if response.voteGranted then [(response.term, request.candidateId)] else []
  | _ => []

namespace Life

variable [Platform] {life life' : Life} {env : Env} {input : Input} {lost : ℕ}

/-- Votes are recorded as they are given; a restart forgets none. -/
def step (life : Life) : Event → Option Life
  | .handle env input =>
    match life.node.handle env input with
    | .error _ => none
    | .ok (node, _) =>
      some { node := node, votes := life.votes ++ life.node.votesGiven env input }
  | .restart env input lost =>
    (life.node.restart env input lost).map fun node => { life with node := node }

theorem step_handle (hstep : life.step (.handle env input) = some life') :
    ∃ node, life.node.after env input = .ok node ∧
      life' = { node := node, votes := life.votes ++ life.node.votesGiven env input } := by
  simp only [step] at hstep
  split at hstep
  next => cases hstep
  next node output hhandle =>
    exact ⟨node, RaftNode.after_of_handle hhandle, (Option.some.inj hstep).symm⟩

theorem step_restart (hstep : life.step (.restart env input lost) = some life') :
    ∃ node, RaftNode.create env life.node.config (life.node.diskLeft env input lost) = .ok node ∧
      life' = { life with node := node } := by
  obtain ⟨node, hrestart, rfl⟩ := Option.map_eq_some_iff.mp hstep
  exact ⟨node, RaftNode.create_of_restart hrestart, rfl⟩

end Life

namespace RaftNode

variable [Platform] {env : Env} {node : RaftNode} {input : Input} {lost : ℕ}
  {kind : DiskWrite Payload → Prop}

/-- After a crash a part of the step's writes is on the disk. -/
theorem wrote_diskLeft
    (hwrote : Disk.Wrote kind node.disk (lastNode (node.after env input)).disk) :
    Disk.Wrote kind node.disk (node.diskLeft env input lost) := by
  rw [← diskAfter_eq] at hwrote
  exact hwrote.cut (le_max_left _ _)

end RaftNode

end Vosfs.Raft
