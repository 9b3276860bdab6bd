import Vosfs.Raft.LeaderHint
import Vosfs.Ui.Client

/-!
# Redirects

A metadata node that is no leader answers with the decimal notation of its leader hint, and the
client reads it with `std::stoull`.  A node without a hint answers with the empty string, on
which `std::stoull` throws.

So the client can read the redirect of a node exactly when the node has a hint, that is, when it
has led or has heard from a leader since it was created (`redirectReadable`).
-/

namespace Vosfs.Ui

open Raft

/-- The handler of a response. -/
def VosfsClient.handleReply (client : VosfsClient) (status : Bool) : Reply → Option VosfsClient
  | .listDir response => client.handleListDirResponse status response
  | .makeDir response => client.handleMakeDirResponse status response
  | .prepareUploadFile response => client.handlePrepareUploadFileResponse status response
  | .uploadFile response => client.handleUploadFileResponse status response
  | .prepareDownloadFile response => client.handlePrepareDownloadFileResponse status response

/-- All handlers treat a redirect in the same way. -/
theorem VosfsClient.handleReply_of_notLeader (client : VosfsClient) {reply : Reply}
    (hstatus : reply.status.1 = .notLeader) :
    client.handleReply true reply = client.redirect reply.status.2 := by
  cases reply <;> exact if_pos hstatus

/-- The client ends up with the member that the node named. -/
def Readable (members : Finset ℕ) (client : VosfsClient) (reply : Reply) : Prop :=
  ∃ m ∈ members, reply.status.2 = toString m ∧
    client.handleReply true reply = some { client with leaderId := m }

theorem redirect_toString (client : VosfsClient) {m : ℕ} (hm : m < 2 ^ 64) :
    client.redirect (toString m) = some { client with leaderId := m } := by
  unfold VosfsClient.redirect
  rw [stoull_toString hm, Option.map_some]

theorem redirect_empty (client : VosfsClient) : client.redirect "" = none := rfl

/-- **Redirects of nodes with a hint can be read, and no others.** -/
theorem redirectReadable [Platform] {c c' : Cluster} {id : ℕ} {env : Env} {input : Input}
    {node : RaftNode} {output : Output} {reply : Reply} (client : VosfsClient)
    (hids : ∀ m ∈ c.members, m < 2 ^ 64) (hinit : c.Initial)
    (hrun : Run Cluster.step (fun _ _ => True) c c') (hid : id ∈ c'.members)
    (hhandle : (c'.node id).handle env input = .ok (node, output))
    (hreply : output.reply = some reply) (hstatus : reply.status.1 = .notLeader) :
    Readable c'.members client reply ↔ (c'.node id).leaderId ≠ none := by
  obtain ⟨-, hmessage⟩ := RaftNode.message_of_notLeader hhandle hreply hstatus
  unfold Readable
  rw [client.handleReply_of_notLeader hstatus, hmessage]
  cases hleader : (c'.node id).leaderId with
  | none =>
    simp only [Option.map_none, Option.getD_none, redirect_empty]
    exact iff_of_false (fun ⟨m, _, _, hsome⟩ => nomatch hsome) (fun hne => hne rfl)
  | some m =>
    simp only [Option.map_some, Option.getD_some]
    refine iff_of_true ⟨m, ?_, rfl, redirect_toString client ?_⟩ (Option.some_ne_none m)
    · exact (Cluster.hintsAreMembers hinit hrun).hints id hid m hleader
    · have hmem := (Cluster.hintsAreMembers hinit hrun).hints id hid m hleader
      exact hids m (Cluster.members_of_run hrun ▸ hmem)

/-! ## A member that was told, and one that was not -/

/-- A client lists the root. -/
def listRoot : Input :=
  .listDir { path := "/" }

theorem redirectReadable_tellThird :
    ∃ c' : Cluster, ∃ output reply, Run (@Cluster.step plainPlatform) (fun _ _ => True)
        threeNodes c' ∧
      @RaftNode.handle plainPlatform late (c'.node 3) listRoot = .ok (c'.node 3, output) ∧
      output.reply = some reply ∧ reply.status = (.notLeader, "1") ∧
      Readable c'.members {} reply := by
  obtain ⟨c', hrun, hcheck⟩ := Run.exists_of_exec (@Cluster.step plainPlatform) (fun _ _ => True)
    threeNodes tellThird
    (fun c' => decide (3 ∈ c'.members ∧ (c'.node 3).leaderId = some 1 ∧
      Reply.status (.listDir ((c'.node 3).handleListDirRequest late { path := "/" })) =
        (.notLeader, "1"))) (by decide)
  obtain ⟨hmem, hleader, hstatus⟩ := of_decide_eq_true hcheck
  refine ⟨c', _, _, hrun, rfl, rfl, hstatus, ?_⟩
  refine (@redirectReadable plainPlatform threeNodes c' 3 late listRoot _ _ _ {} (by decide)
    (@Cluster.initial_fresh plainPlatform ..) hrun hmem rfl rfl (congrArg Prod.fst hstatus)).mpr ?_
  rw [hleader]
  exact Option.some_ne_none 1

/-- A node that has not heard from a leader makes the client throw. -/
theorem exists_unreadable_redirect :
    @Cluster.Initial plainPlatform threeNodes ∧ 1 ∈ threeNodes.members ∧
      ∃ output reply,
        @RaftNode.handle plainPlatform late (threeNodes.node 1) listRoot =
          .ok (threeNodes.node 1, output) ∧
        output.reply = some reply ∧ reply.status = (.notLeader, "") ∧
        ∀ client : VosfsClient, client.handleReply true reply = none ∧
          ¬ Readable threeNodes.members client reply := by
  refine ⟨@Cluster.initial_fresh plainPlatform .., by decide, _, _, rfl, rfl, rfl, fun client => ?_⟩
  have hthrows : client.handleReply true (.listDir ((threeNodes.node 1).handleListDirRequest late
      { path := "/" })) = none :=
    client.handleReply_of_notLeader rfl
  refine ⟨hthrows, fun ⟨m, _, _, hsome⟩ => ?_⟩
  rw [hthrows] at hsome
  cases hsome

end Vosfs.Ui
