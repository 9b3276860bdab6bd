import Vosfs.Raft.ElectionSafety
import Vosfs.Raft.Entries

/-!
# Followers and leaders

A request that only a leader sends makes a node a follower when it brings a later term.
At the node's own term it leaves the role alone, so that a candidate stays a
candidate and a leader stays a leader while it takes another leader's log
(`acceptsAsFollower`).  A node that accepts a leader only in one of the two good cases
(`Yields`) keeps the entries of its log for as long as it leads.
-/

namespace Vosfs.Raft

open Function

/-- The term of a request that a leader sends. -/
def Message.leaderTerm? : Message → Option ℕ
  | .appendEntriesRequest request => some request.term
  | .installSnapshotRequest request => some request.term
  | _ => none

namespace RaftNode

variable {env : Env} {node node' : RaftNode} {term : ℕ}

/-- The term is later than the node's, or the node follows already. -/
def Yields (node : RaftNode) (term : ℕ) : Prop :=
  node.currentTerm < term ∨ node.role = .follower

instance : Decidable (Yields node term) :=
  inferInstanceAs (Decidable (_ ∨ _))

theorem role_catchUp_iff : (node.catchUp env term).role = .follower ↔ node.Yields term := by
  unfold catchUp Yields
  split
  next hlt => exact iff_of_true rfl (Or.inl hlt)
  next hle => exact (or_iff_right hle).symm

variable [Platform]

theorem handleInstallSnapshotRequest_keepsRole {request : InstallSnapshotRequest}
    (hterm : node.currentTerm ≤ request.term) :
    (node.handleInstallSnapshotRequest env request).1.role =
      (node.catchUp env request.term).role := by
  generalize hafter : (node.handleInstallSnapshotRequest env request).1 = node'
  cases outcome_of_handleInstallSnapshotRequest hafter with
  | late hlate => exact absurd hterm (not_le.mpr hlate)
  | received => rfl
  | installed => rfl

/-- **The role after accepting a leader.** -/
theorem follows_iff {src : ℕ} {message : Message} (hleader : message.leaderTerm? = some term)
    (hterm : node.currentTerm ≤ term) (hafter : node.after env (.deliver src message) = .ok node') :
    node'.role = .follower ↔ node.Yields term := by
  cases message with
  | appendEntriesRequest request =>
    cases hleader
    rw [(afterEntries_keepsRaft hterm hafter).role, role_catchUp_iff]
  | installSnapshotRequest request =>
    cases hleader
    cases hafter
    rw [handleInstallSnapshotRequest_keepsRole hterm, role_catchUp_iff]
  | requestVoteRequest request => cases hleader
  | requestVoteResponse response => cases hleader
  | appendEntriesResponse response => cases hleader
  | installSnapshotResponse response => cases hleader

/-- The input does not make a leader take another leader's log. -/
def YieldsTo (node : RaftNode) : Input → Prop
  | .deliver _ message => ∀ term ∈ message.leaderTerm?, node.currentTerm ≤ term → node.Yields term
  | _ => True

/-- A leader that stays one keeps its entries. -/
theorem entries_of_leader {input : Input} (hyields : node.YieldsTo input)
    (hafter : node.after env input = .ok node') (hrole : node'.role = .leader) :
    node.logs.entries <+: node'.logs.entries := by
  cases effect_of_after hafter with
  | keeps hkeeps => rw [hkeeps.logs]
  | @entries src request _ hentries =>
    by_cases hterm : node.currentTerm ≤ request.term
    · have hleader : (Message.appendEntriesRequest request).leaderTerm? = some request.term := rfl
      have hfollows := (follows_iff hleader hterm hafter).mpr (hyields request.term rfl hterm)
      rw [hrole] at hfollows
      cases hfollows
    · cases outcome_of_afterEntries hentries with
      | late => exact List.prefix_rfl
      | rejected hterm' => exact absurd hterm' hterm
      | stored haccepts => exact absurd haccepts.1 hterm
  | commits hadvance =>
    rw [(RaftNode.movesCommit_of_advanceCommit hadvance).applies.entries]
    exact List.prefix_rfl
  | installs _ hlogs => rw [hlogs]; exact List.prefix_rfl
  | appends => exact List.prefix_append _ _
  | prepares => exact List.prefix_rfl

end RaftNode

namespace Cluster

variable [Platform] {c c' : Cluster} {id term : ℕ}

/-- The member leads the term. -/
def Leads (c : Cluster) (id term : ℕ) : Prop :=
  (c.node id).role = .leader ∧ (c.node id).currentTerm = term

/-- What the member handles does not make it, as a leader, take another leader's log. -/
def YieldsIn (c : Cluster) : Action → Prop
  | .handle id _ input => (c.node id).YieldsTo input
  | _ => True

/-- A node that is started again is a follower. -/
theorem role_of_create {env : Env} {config : Config} {disk : Disk Payload} {node : RaftNode}
    (hcreate : RaftNode.create env config disk = .ok node) : node.role = .follower := by
  obtain ⟨_, _, _, _, _, -, -, -, rfl⟩ := RaftNode.create_spec hcreate
  rfl

theorem entries_of_step {action : Action} (hyields : c.YieldsIn action)
    (hstep : c.step action = some c') (hrole : (c'.node id).role = .leader) :
    (c.node id).logs.entries <+: (c'.node id).logs.entries := by
  cases action with
  | handle other env input =>
    obtain ⟨-, network, node, output, -, hhandle, rfl⟩ := step_handle hstep
    by_cases heq : id = other
    · subst heq
      simp only [afterHandling, update_self] at hrole ⊢
      exact RaftNode.entries_of_leader hyields (RaftNode.after_of_handle hhandle) hrole
    · simp only [afterHandling, update_of_ne heq]
      exact List.prefix_rfl
  | lose packet =>
    obtain ⟨network, -, rfl⟩ := Option.map_eq_some_iff.mp hstep
    exact List.prefix_rfl
  | restart other env input lost =>
    obtain ⟨-, network, node, -, hcreate, rfl⟩ := step_restart hstep
    by_cases heq : id = other
    · subst heq
      simp only [update_self] at hrole
      have hfollower : node.role = .follower := role_of_create hcreate
      rw [show (node.withHistoryOf (c.node id)).role = node.role from rfl, hfollower] at hrole
      cases hrole
    · simp only [update_of_ne heq]
      exact List.prefix_rfl

/-- While a node leads, its log only grows at the end. -/
theorem entries_of_run (hrun : Run step (fun c action => c.Leads id term ∧ c.YieldsIn action) c c')
    (hleads : c'.Leads id term) : (c.node id).logs.entries <+: (c'.node id).logs.entries := by
  induction hrun with
  | refl => exact List.prefix_rfl
  | next _ hallowed hstep ih =>
    exact (ih hallowed.1).trans (entries_of_step hallowed.2 hstep hleads.1)

end Cluster

section Theorem

variable [Platform]

/-- **Only followers take another leader's log**, exactly where a node that accepts a leader
moves to a later term or follows already; and a node that accepts leaders only then keeps
its log while it leads. -/
theorem acceptsAsFollower (c : Cluster) (id : ℕ) :
    (∀ env src message term node output, message.leaderTerm? = some term →
      (c.node id).currentTerm ≤ term →
      (c.node id).handle env (.deliver src message) = .ok (node, output) →
      (node.role = .follower ↔ (c.node id).Yields term)) ∧
    ∀ term c', Run Cluster.step (fun c action => c.Leads id term ∧ c.YieldsIn action) c c' →
      c'.Leads id term → (c.node id).logs.entries <+: (c'.node id).logs.entries :=
  ⟨fun _ _ _ _ _ _ hleader hterm hhandle =>
      RaftNode.follows_iff hleader hterm (RaftNode.after_of_handle hhandle),
    fun _ _ hrun hleads => Cluster.entries_of_run hrun hleads⟩

end Theorem

/-! ## A follower and a leader that accept -/

instance (c : Cluster) : ∀ action, Decidable (c.YieldsIn action)
  | .handle _ _ (.deliver _ message) =>
    inferInstanceAs (Decidable (∀ term ∈ message.leaderTerm?, _ → RaftNode.Yields _ term))
  | .handle _ _ .electionTimeout | .handle _ _ .heartbeat | .handle _ _ (.listDir _)
  | .handle _ _ (.makeDir _) | .handle _ _ (.prepareUploadFile _) | .handle _ _ (.uploadFile _)
  | .handle _ _ (.prepareDownloadFile _) | .lose _ | .restart _ _ _ _ =>
    inferInstanceAs (Decidable True)

instance (c : Cluster) (id term : ℕ) : Decidable (c.Leads id term) :=
  inferInstanceAs (Decidable (_ = _ ∧ _ = _))

/-- The request of a leader with an empty log. -/
def firstHeartbeat (leader term : ℕ) : Message :=
  .appendEntriesRequest { term := term, leaderId := leader }

/-- A client asks for a directory below the root. -/
def makeDir (name : String) : Input :=
  .makeDir { parentPath := "/", name := name }

/-- A leader keeps the entry of one client while it serves another. -/
theorem acceptsAsFollower_elected :
    ∃ c c' : Cluster, Run (@Cluster.step plainPlatform) (fun _ _ => True) threeNodes c ∧
      (c.node 1).logs.entries ≠ [] ∧ (c.node 1).logs.entries <+: (c'.node 1).logs.entries := by
  obtain ⟨c, c', hrun, hlater, hcheck⟩ := Run.exists_later_of_exec (@Cluster.step plainPlatform)
    (fun _ _ => True) (fun c action => c.Leads 1 1 ∧ c.YieldsIn action) threeNodes
    (electFirst ++ [.handle 1 late (makeDir "a")])
    [.handle 1 late (makeDir "b"), .handle 1 late .heartbeat]
    (fun c c' => decide ((c.node 1).logs.entries ≠ [] ∧ c'.Leads 1 1)) (by decide)
  obtain ⟨hentries, hleads⟩ := of_decide_eq_true hcheck
  exact ⟨c, c', hrun, hentries, (@acceptsAsFollower plainPlatform c 1).2 1 c' hlater hleads⟩

/-- Members 1 and 2 lead term 1, and member 1 accepts a heartbeat of member 2. -/
theorem exists_leader_that_accepts :
    @Cluster.Initial plainPlatform threeNodes ∧
      ∃ c c', Run (@Cluster.step plainPlatform) (fun _ _ => True) threeNodes c ∧
        @Cluster.step plainPlatform c (.handle 1 late (.deliver 2 (firstHeartbeat 2 1))) = some c' ∧
        (c.node 1).currentTerm ≤ 1 ∧ (c'.node 1).role ≠ .follower := by
  obtain ⟨c, c', hrun, hstep, hrole⟩ := Run.exists_step_of_exec (@Cluster.step plainPlatform)
    (fun _ _ => True) threeNodes (raceOfTwo ++ [.handle 2 late .heartbeat])
    (.handle 1 late (.deliver 2 (firstHeartbeat 2 1)))
    (fun c c' => decide ((c.node 1).currentTerm ≤ 1 ∧ (c'.node 1).role ≠ .follower)) (by decide)
  exact ⟨@Cluster.initial_fresh plainPlatform .., c, c', hrun, hstep, of_decide_eq_true hrole⟩

end Vosfs.Raft
