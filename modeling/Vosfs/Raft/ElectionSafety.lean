import Vosfs.Raft.ClusterSteps

/-!
# At most one leader per term

In every run whose steps keep one vote per term, a term has at most one leader
(`electionSafety`).  The exception is what `become_leader` does: it clears the vote
the new leader gave itself, so a request of another candidate of the same term that
reaches the leader afterwards is granted (`exists_two_leaders`).
-/

namespace Vosfs.Raft

open Function

variable {c c' : Cluster}

namespace Cluster

/-- No two members executed `become_leader` in one term. -/
def ElectionSafe (c : Cluster) : Prop :=
  ∀ T, ∀ m ∈ c.members, ∀ m' ∈ c.members,
    T ∈ (c.node m).led → T ∈ (c.node m').led → m = m'

theorem VotesOnce.regular [Platform] {action : Action}
    (hok : VotesOnce c action) : Regular 0 c action :=
  ⟨hok, by omega, by omega, by omega⟩

end Cluster

section Theorem

variable [Platform]

/-- **Election safety.** -/
theorem electionSafety (hinit : c.Initial) (hrun : Run Cluster.step Cluster.VotesOnce c c') :
    c'.ElectionSafe := by
  obtain ⟨h, hs⟩ := exists_sim_of_run hinit (hrun.mono Cluster.VotesOnce.regular)
  intro T m hm m' hm' hled hled'
  have hl := (hs.nodes m hm).votes.led T hled
  have hl' := (hs.nodes m' hm').votes.led T hled'
  rw [hl] at hl'
  exact Option.some.inj hl'

end Theorem

/-! ## Runs of three members -/

/-- Three members without data nodes. -/
def threeNodes : Cluster :=
  Cluster.fresh [1, 2, 3] nodup_threeMembers []

/-- Member 1 becomes the leader of term 1 with the vote of member 3. -/
def electFirst : List Action :=
  [.handle 1 late .electionTimeout,
    .handle 3 late (.deliver 1 (voteRequest 1 1)),
    .handle 1 late (.deliver 3 (vote 3 1))]

/-- An ordinary election keeps the condition, and elects one leader. -/
theorem electionSafety_electFirst :
    ∃ c', @Run _ _ (@Cluster.step plainPlatform) (@Cluster.VotesOnce plainPlatform) threeNodes c' ∧
      1 ∈ (c'.node 1).led ∧ c'.ElectionSafe := by
  obtain ⟨c', hrun, hled⟩ := Run.exists_of_exec (@Cluster.step plainPlatform)
    (@Cluster.VotesOnce plainPlatform) threeNodes electFirst
    (fun c' => decide (1 ∈ (c'.node 1).led)) (by decide)
  exact ⟨c', hrun, of_decide_eq_true hled,
    @electionSafety _ _ plainPlatform (@Cluster.initial_fresh plainPlatform ..) hrun⟩

/-- The steps of elections: timeouts, requests for votes, answers, and losses. -/
def Action.isElection : Action → Bool
  | .handle _ _ .electionTimeout => true
  | .handle _ _ (.deliver _ (.requestVoteRequest _)) => true
  | .handle _ _ (.deliver _ (.requestVoteResponse _)) => true
  | .lose _ => true
  | _ => false

/-- Members 1 and 2 stand in term 1, member 3 elects member 1, and then member 1
votes for member 2. -/
def raceOfTwo : List Action :=
  [.handle 1 late .electionTimeout,
    .handle 2 late .electionTimeout,
    .handle 3 late (.deliver 1 (voteRequest 1 1)),
    .handle 1 late (.deliver 3 (vote 3 1)),
    .handle 1 late (.deliver 2 (voteRequest 2 1)),
    .handle 2 late (.deliver 1 (vote 1 1))]

theorem exists_two_leaders :
    @Cluster.Initial plainPlatform threeNodes ∧
      ∃ c', Run (@Cluster.step plainPlatform) (fun _ action => action.isElection = true)
        threeNodes c' ∧ ¬ c'.ElectionSafe := by
  obtain ⟨c', hrun, hled⟩ := Run.exists_of_exec (@Cluster.step plainPlatform)
    (fun _ action => action.isElection = true) threeNodes raceOfTwo
    (fun c' => decide (1 ∈ c'.members ∧ 2 ∈ c'.members ∧
      1 ∈ (c'.node 1).led ∧ 1 ∈ (c'.node 2).led)) (by decide)
  obtain ⟨hfirst, hsecond, hled, hled'⟩ := of_decide_eq_true hled
  refine ⟨@Cluster.initial_fresh plainPlatform .., c', hrun, fun hsafe => ?_⟩
  exact absurd (hsafe 1 1 hfirst 2 hsecond hled hled') (by decide)

end Vosfs.Raft
