import Mathlib.Data.Finset.Card
import Vosfs.Library.Run
import Vosfs.Raft.Node

/-!
# The cluster

Nodes and the packets between them.  An action lets one node react to a timeout, to
a client or to a packet on the network, loses a packet, or restarts a node.  Packets
arrive in any order, at most once each.
-/

namespace Vosfs.Raft

open Function

/-- The members with their states, and the messages on their way. -/
structure Cluster where
  members : Finset ℕ
  node : ℕ → RaftNode
  network : List Packet := []
  /-- History: all replies to clients, with the member that gave them. -/
  replies : List (ℕ × Reply) := []

/-- A member handles an input, a message is lost, or a member crashes while it handles an input and
is started again. -/
inductive Action
  | handle (id : ℕ) (env : Env) (input : Input)
  | lose (packet : Packet)
  | restart (id : ℕ) (env : Env) (input : Input) (lost : ℕ)

/-- What holds of all members holds when one of them has changed, if it holds of this one. -/
theorem forall_update {members : Finset ℕ} {node : ℕ → RaftNode} {id : ℕ} {node' : RaftNode}
    (P : ℕ → RaftNode → Prop) (hall : ∀ m ∈ members, P m (node m)) (hself : P id node') :
    ∀ m ∈ members, P m (update node id node' m) := by
  intro m hm
  by_cases heq : m = id
  · rwa [heq, update_self]
  · rw [update_of_ne heq]
    exact hall m hm

namespace Cluster

/-- The packet an input takes off the network. -/
def delivered (id : ℕ) : Input → Option Packet
  | .deliver src message => some ⟨src, id, message⟩
  | _ => none

/-- The network without the packet that is delivered, which must be there. -/
def consume (network : List Packet) : Option Packet → Option (List Packet)
  | none => some network
  | some packet => if packet ∈ network then some (network.erase packet) else none

/-- The member has handled its input, and what it sends is on its way. -/
def afterHandling (c : Cluster) (id : ℕ) (network : List Packet) (node : RaftNode)
    (output : Output) : Cluster :=
  { c with
    node := update c.node id node
    network := network ++ output.packets
    replies := c.replies ++ (output.reply.map (Prod.mk id)).toList }

variable [Platform]

/-- A message that is handled or lost is taken from the network; only members do anything. -/
def step (c : Cluster) : Action → Option Cluster
  | .handle id env input =>
    if id ∈ c.members then
      match consume c.network (delivered id input), (c.node id).handle env input with
      | some network, .ok (node, output) => some (c.afterHandling id network node output)
      | _, _ => none
    else
      none
  | .lose packet => (consume c.network (some packet)).map fun network =>
      { c with network := network }
  | .restart id env input lost =>
    if id ∈ c.members then
      match consume c.network (delivered id input), (c.node id).restart env input lost with
      | some network, some node =>
        some { c with
          node := update c.node id (node.withHistoryOf (c.node id))
          network := network }
      | _, _ => none
    else
      none

theorem step_handle {c c' : Cluster} {id : ℕ} {env : Env} {input : Input}
    (hstep : c.step (.handle id env input) = some c') :
    id ∈ c.members ∧ ∃ network node output,
      consume c.network (delivered id input) = some network ∧
      (c.node id).handle env input = .ok (node, output) ∧
      c' = c.afterHandling id network node output := by
  simp only [step] at hstep
  split at hstep
  next hid =>
    split at hstep
    next network node output hconsume hhandle =>
      exact ⟨hid, network, node, output, hconsume, hhandle, (Option.some.inj hstep).symm⟩
    next => cases hstep
  next => cases hstep

theorem step_restart {c c' : Cluster} {id : ℕ} {env : Env} {input : Input} {lost : ℕ}
    (hstep : c.step (.restart id env input lost) = some c') :
    id ∈ c.members ∧ ∃ network node,
      consume c.network (delivered id input) = some network ∧
      RaftNode.create env (c.node id).config ((c.node id).diskLeft env input lost) = .ok node ∧
      c' = { c with node := update c.node id (node.withHistoryOf (c.node id)), network := network }
      := by
  simp only [step] at hstep
  split at hstep
  next hid =>
    split at hstep
    next network node hconsume hrestart =>
      exact ⟨hid, network, node, hconsume, RaftNode.create_of_restart hrestart,
        (Option.some.inj hstep).symm⟩
    next => cases hstep
  next => cases hstep

theorem members_of_step {c c' : Cluster} {action : Action} (hstep : c.step action = some c') :
    c'.members = c.members := by
  cases action with
  | handle id env input =>
    obtain ⟨-, _, _, _, -, -, rfl⟩ := step_handle hstep
    rfl
  | lose packet =>
    obtain ⟨_, -, rfl⟩ := Option.map_eq_some_iff.mp hstep
    rfl
  | restart id env input lost =>
    obtain ⟨-, _, _, -, -, rfl⟩ := step_restart hstep
    rfl

theorem members_of_run {c c' : Cluster} {allowed : Cluster → Action → Prop}
    (hrun : Run step allowed c c') : c'.members = c.members := by
  induction hrun with
  | refl => rfl
  | next _ _ hstep ih => exact (members_of_step hstep).trans ih

omit [Platform] in
theorem consume_some {network network' : List Packet} {packet : Packet}
    (hconsume : consume network (some packet) = some network') :
    packet ∈ network ∧ network' = network.erase packet := by
  simp only [consume] at hconsume
  split at hconsume
  next hmem => exact ⟨hmem, (Option.some.inj hconsume).symm⟩
  next => cases hconsume

omit [Platform] in
/-- What is taken out of the network was there. -/
theorem mem_of_taken {network network' : List Packet} {taken : Option Packet}
    (hconsume : consume network taken = some network') : ∀ packet ∈ taken, packet ∈ network := by
  rintro packet rfl
  exact (consume_some hconsume).1

omit [Platform] in
theorem mem_of_consume {network network' : List Packet} {taken : Option Packet} {packet : Packet}
    (hconsume : consume network taken = some network') (hpacket : packet ∈ network') :
    packet ∈ network := by
  cases taken with
  | none => cases hconsume; exact hpacket
  | some taken =>
    obtain ⟨-, rfl⟩ := consume_some hconsume
    exact List.mem_of_mem_erase hpacket

/-! ## The start -/

/-- Every member was created on an empty disk, with the members as its peers, and
nothing was sent. -/
structure Initial (c : Cluster) : Prop where
  created : ∀ id ∈ c.members, ∃ env config, config.memberId = id ∧
    (∀ peer, peer ∈ config.raftNodes ↔ peer ∈ c.members) ∧
    RaftNode.create env config {} = .ok (c.node id)
  network : c.network = []
  replies : c.replies = []

/-- The node that `create` leaves on an empty disk. -/
def freshNode (config : Config) : RaftNode :=
  RaftNode.assemble config none RaftNode.newSnapshotter [] {} (Persister.saveHardState {} {})

theorem create_empty {env : Env} {config : Config} {node : RaftNode}
    (hcreate : RaftNode.create env config {} = .ok node) : node = freshNode config := by
  obtain ⟨snapshot, snapshotter, entries, hardState, disk, hfind, hload, hstate, rfl⟩ :=
    RaftNode.create_spec hcreate
  obtain ⟨rfl, rfl⟩ := RaftNode.findSnapshot_of_empty rfl hfind
  cases hload
  cases hstate
  rfl

/-- What `create` makes of a disk without a snapshot. -/
theorem create_of_stored {env : Env} {config : Config} {disk : Disk Payload} {node : RaftNode}
    {entries : List LogEntry} {hardState : HardState}
    (hcreate : RaftNode.create env config disk = .ok node)
    (hfile : (disk.file RaftNode.snapshotFileName).getD [] = [])
    (hentries : Persister.loadEntries disk 0 = .ok entries)
    (hhard : disk.get Persister.hardStateKey = some (.hardState hardState)) :
    node = RaftNode.assemble config none RaftNode.newSnapshotter entries hardState disk := by
  obtain ⟨snapshot, snapshotter, loaded, hardState', disk', hfind, hload, hstate, rfl⟩ :=
    RaftNode.create_spec hcreate
  obtain ⟨rfl, rfl⟩ := RaftNode.findSnapshot_of_empty hfile hfind
  unfold Persister.loadHardState at hstate
  rw [hhard] at hstate
  cases hstate
  obtain rfl : entries = loaded := Except.ok.inj (hentries.symm.trans hload)
  rfl

theorem create_freshNode (config : Config) :
    RaftNode.create {} config {} = .ok (freshNode config) := by
  have hfind : RaftNode.findSnapshot {} {} = .ok (none, RaftNode.newSnapshotter) := by
    unfold RaftNode.findSnapshot
    rw [RaftNode.getFileSize_of_empty rfl rfl]
    rfl
  unfold RaftNode.create
  rw [hfind]
  rfl

/-- The cluster of some members on empty disks. -/
def fresh (members : List ℕ) (hnodup : members.Nodup) (dataNodes : List ℕ) : Cluster where
  members := members.toFinset
  node id := freshNode ⟨id, members, hnodup, dataNodes⟩

theorem initial_fresh (members : List ℕ) (hnodup : members.Nodup) (dataNodes : List ℕ) :
    (fresh members hnodup dataNodes).Initial where
  created id _ := ⟨{}, ⟨id, members, hnodup, dataNodes⟩, rfl,
    fun _ => List.mem_toFinset.symm, create_freshNode _⟩
  network := rfl
  replies := rfl

end Cluster

/-! ## Concrete inputs -/

/-- A clock reading at which every election timeout has passed. -/
def late : Env :=
  { monotonicMs := 300 }

/-- A candidate with an empty log asks for votes. -/
def voteRequest (candidate term : ℕ) : Message :=
  .requestVoteRequest { term := term, candidateId := candidate }

/-- A vote that is granted. -/
def vote (voter term : ℕ) : Message :=
  .requestVoteResponse { id := voter, term := term, voteGranted := true }

end Vosfs.Raft
