import Vosfs.FileSystem.Replication
import Vosfs.Raft.Entries
import Vosfs.Raft.Resumptions

/-!
# Where the tree comes from

Nothing gets into the cluster but through a leader that takes over the command of a client whose
token it has verified (`Cluster.TakesOver`).  This holds of every entry that is in a log, on a
disk or on its way, in all runs, those with crashes included (`entriesSubmitted`).  In the runs that
keep the trees it holds of all that is shown: every directory and every file that a member shows
was asked for by one such command (`treeSubmitted`).
-/

namespace Vosfs.Raft

open Consensus Function

/-- The command a client asks for, with the token it gives. -/
def Input.request? (env : Env) : Input → Option (String × EntryCommand)
  | .makeDir request => some (request.token, .mkdir { request with timestamp := env.requestMs })
  | .uploadFile request => some (request.token, .uploadFile request)
  | _ => none

/-- The entry a leader makes of a command. -/
def RaftNode.entryOf (node : RaftNode) (command : EntryCommand) : LogEntry :=
  { term := node.currentTerm, index := node.logs.lastLogIndex + 1, command := some command }

namespace Cluster

/-- A leader takes over what a client with a valid token asks for, and the entry is the one it makes
of it. -/
inductive TakesOver (c : Cluster) : Action → LogEntry → Prop
  | intro {id : ℕ} {env : Env} {input : Input} {token : String} {command : EntryCommand}
      (hid : id ∈ c.members) (hrequest : input.request? env = some (token, command))
      (hverified : env.vertifyToken token = true) (hleads : (c.node id).role = .leader) :
      TakesOver c (.handle id env input) ((c.node id).entryOf command)

variable {c c' : Cluster} {id : ℕ} {env : Env} {input : Input} {command : EntryCommand}
  {entry : LogEntry}

theorem verified_of_refusal {node : RaftNode} {token : String}
    (hrefusal : node.refusal env token = none) :
    env.vertifyToken token = true ∧ node.role = .leader := by
  unfold RaftNode.refusal at hrefusal
  split at hrefusal
  next => cases hrefusal
  next hverified =>
    split at hrefusal
    next => cases hrefusal
    next hrole => exact ⟨by simpa using hverified, not_not.mp hrole⟩

/-- Only such a command is appended. -/
theorem takesOver_of_accepted (hid : id ∈ c.members)
    (haccepted : (c.node id).accepted env input = some command) :
    c.TakesOver (.handle id env input) ((c.node id).entryOf command) := by
  cases input with
  | makeDir request =>
    obtain ⟨hrefusal, hcommand⟩ := Option.ite_none_right_eq_some.mp haccepted
    obtain ⟨hverified, hleads⟩ := verified_of_refusal hrefusal
    exact .intro hid (congrArg (fun command => some (request.token, command))
      (Option.some.inj hcommand)) hverified hleads
  | uploadFile request =>
    obtain ⟨hrefusal, hcommand⟩ := Option.ite_none_right_eq_some.mp haccepted
    obtain ⟨hverified, hleads⟩ := verified_of_refusal hrefusal
    exact .intro hid (congrArg (fun command => some (request.token, command))
      (Option.some.inj hcommand)) hverified hleads
  | _ => cases haccepted

variable [Platform]

/-- A step in which a leader appends a command brings one entry. -/
theorem holds_of_accepted (haccepted : (c.node id).accepted env input = some command)
    (hstep : c.step (.handle id env input) = some c') (hholds : c'.Holds entry) :
    c.Holds entry ∨ entry = (c.node id).entryOf command := by
  obtain ⟨hid, network, node, output, hconsume, hhandle, rfl⟩ := step_handle hstep
  obtain ⟨response, rfl⟩ := RaftNode.append_of_after haccepted (RaftNode.after_of_handle hhandle)
  cases hholds with
  | @log id' hid' hmem =>
    by_cases heq : id' = id
    · subst heq
      rw [node_afterHandling_self] at hmem
      rcases List.mem_append.mp hmem with hold | hnew
      · exact Or.inl (.log hid hold)
      · exact Or.inr (List.mem_singleton.mp hnew)
    · rw [node_afterHandling_of_ne heq] at hmem
      exact Or.inl (.log hid' hmem)
  | @disk id' hid' hstored =>
    refine Or.inl (.disk hid' ?_)
    by_cases heq : id' = id
    · subst heq
      rw [node_afterHandling_self] at hstored
      exact hstored
    · rwa [node_afterHandling_of_ne heq] at hstored
  | packet hpacket hmem =>
    rcases List.mem_append.mp hpacket with hold | hsent
    · exact Or.inl (holds_of_network hconsume hold hmem)
    · exact Or.inl (.log hid (RaftNode.handle_carries hhandle _ hsent hmem))

/-- What no one held before a step was taken over in it. -/
theorem takesOver_of_step {action : Action} (hstep : c.step action = some c')
    (hnot : ¬ c.Holds entry) (hholds : c'.Holds entry) : c.TakesOver action entry := by
  rcases holds_of_step hstep hholds with hold | ⟨id, env, input, command, rfl, hid, haccepted, -⟩
  · exact absurd hold hnot
  · obtain rfl := (holds_of_accepted haccepted hstep hholds).resolve_left hnot
    exact takesOver_of_accepted hid haccepted

end Cluster

/-- The entry was taken over in one step of the run. -/
def Submitted [Platform] (allowed : Cluster → Action → Prop) (c c' : Cluster) (entry : LogEntry) :
    Prop :=
  ∃ before action after, Run Cluster.step allowed c before ∧ before.TakesOver action entry ∧
    before.step action = some after ∧ Run Cluster.step allowed after c'

section Theorems

variable [Platform] {allowed : Cluster → Action → Prop} {c c' : Cluster}

/-- **All entries were submitted**: whatever is in a log, on a disk or on its way was taken over
by a leader from a client with a valid token. -/
theorem entriesSubmitted (hinit : c.Initial) (hrun : Run Cluster.step allowed c c') {entry : LogEntry}
    (hholds : c'.Holds entry) : Submitted allowed c c' entry := by
  obtain ⟨before, action, after, hfirst, -, hstep, hsecond, hnot, hnow⟩ :=
    hrun.exists_step_of_not (fun c => c.Holds entry) (Cluster.not_holds_of_initial hinit) hholds
  exact ⟨before, action, after, hfirst, Cluster.takesOver_of_step hstep hnot hnow, hstep, hsecond⟩

/-! ## What is shown -/

omit [Platform] in
/-- What a replayed log shows was added by one of its commands. -/
theorem StateMachine.exists_added {log : List (Option EntryCommand)} {path : String}
    {kind : Kind (List BlockInfo)} (hroot : path ≠ "/")
    (hfind : (fileSystem.replay log).find path = some kind) :
    ∃ (k : ℕ) (command : Option EntryCommand) (added : Insertion (List BlockInfo)),
      log[k]? = some command ∧ insertionOf command = some added ∧ added.path = path ∧
        added.kind = kind := by
  induction log using List.reverseRecOn with
  | nil =>
    rw [Machine.replay_nil] at hfind
    change (if path = "/" then some Kind.directory else none) = some kind at hfind
    rw [if_neg hroot] at hfind
    cases hfind
  | append_singleton log command ih =>
    have hold : (fileSystem.replay log).find path = some kind →
        ∃ (k : ℕ) (command' : Option EntryCommand) (added : Insertion (List BlockInfo)),
          (log ++ [command])[k]? = some command' ∧ insertionOf command' = some added ∧
            added.path = path ∧ added.kind = kind := by
      intro hbefore
      obtain ⟨k, command', added, hget, hadded⟩ := ih hbefore
      have hlt := (List.getElem?_eq_some_iff.mp hget).1
      exact ⟨k, command', added, by rw [List.getElem?_append_left hlt, hget], hadded⟩
    rw [Machine.replay_concat] at hfind
    cases hinsertion : insertionOf command with
    | none =>
      apply hold
      simpa [fileSystem, hinsertion] using hfind
    | some added =>
      rw [fileSystem_apply_of_eq hinsertion] at hfind
      by_cases hfits : (fileSystem.replay log).Fits added
      · rw [Namespace.find_add_of_fits hfits] at hfind
        split at hfind
        next hpath =>
          exact ⟨log.length, command, added, List.getElem?_concat_length, hinsertion, hpath.symm,
            Option.some.inj hfind⟩
        next => exact hold hfind
      · rw [Namespace.add_of_not_fits hfits] at hfind
        exact hold hfind

omit [Platform] in
/-- What a majority confirmed someone has in its log. -/
theorem Sim.exists_holder {members : Finset ℕ} {node : ℕ → RaftNode} {network : List Packet}
    {h : History ℕ LogEntry} (hs : Sim 3 members node network h) {T i k : ℕ} {entry : LogEntry}
    (hchosen : h.Chosen members T i) (hk : k ≤ i) (hentry : (h.leaderLog T)[k]? = some entry) :
    ∃ m ∈ members, entry ∈ (node m).logs.entries := by
  have hr := hs.replicated (by omega)
  obtain ⟨hown, voters, hmaj, hacked⟩ := hchosen
  obtain ⟨m, hm⟩ := hmaj.inter_nonempty hmaj
  have hvoter := (Finset.mem_inter.mp hm).1
  have hmem : m ∈ members := hmaj.1 hvoter
  have hpre := Retained.log_prefix hr.retained (hs.inherited le_rfl) hs.election
    ⟨hown, voters, hmaj, hacked⟩ (hacked m hvoter)
  rw [((hs.nodes m hmem).log (by omega)).log] at hpre
  have htaken : (h.upTo T i)[k]? = some entry := by
    rw [History.upTo, List.getElem?_take_of_lt (by omega), hentry]
  exact ⟨m, hmem, hpre.subset (List.mem_of_getElem? htaken)⟩

/-- **All that is shown was submitted.**  What a member shows below the root was asked for by a
client with a valid token, in the entry at an index the member has applied. -/
theorem treeSubmitted (hinit : c.Initial) (hrun : Run Cluster.step Cluster.TreesHold c c') {m : ℕ}
    (hm : m ∈ c.members) {path : String} (hroot : path ≠ "/") {kind : Kind (List BlockInfo)}
    (hshown : (c'.node m).stateMachine.kindAt path = some kind) :
    ∃ entry added, Submitted Cluster.TreesHold c c' entry ∧
      0 < entry.index ∧ entry.index ≤ (c'.node m).lastApplied ∧
      StateMachine.insertionOf entry.command = some added ∧ added.path = path ∧
      added.kind = kind := by
  obtain ⟨h, r, -, -, hs, hbacked, -, hrefines⟩ := (Follows.initial hinit).run hrun
  have hmem : m ∈ c'.members := Cluster.members_of_run hrun ▸ hm
  rw [(hrefines.shows m hmem).find] at hshown
  obtain ⟨k, command, added, hget, hadded⟩ := StateMachine.exists_added hroot hshown
  change (r.log.take (r.position m))[k]? = some command at hget
  rw [List.getElem?_take] at hget
  obtain ⟨hpos, hlog⟩ := Option.ite_none_right_eq_some.mp hget
  obtain ⟨T, i, entry, hchosen, hle, hentry, rfl⟩ := hbacked k command hlog
  obtain ⟨l, hl, hholder⟩ := hs.exists_holder hchosen hle hentry
  have hindex : entry.index = k + 1 := hs.numbered (by decide) T k entry hentry
  refine ⟨entry, added, entriesSubmitted hinit hrun (.log hl hholder), by omega, ?_, hadded⟩
  rw [← hrefines.position m hmem]
  omega

end Theorems

/-! ## A directory that was asked for -/

/-- Member 2 has the entry also when it was started again. -/
theorem entriesSubmitted_restart :
    ∃ c', @Run _ _ (@Cluster.step plainPlatform) (fun _ _ => True) twoNodes c' ∧
      ∃ entry ∈ (c'.node 2).logs.entries,
        @Submitted plainPlatform (fun _ _ => True) twoNodes c' entry := by
  obtain ⟨c', hrun, hcheck⟩ := Run.exists_of_exec (@Cluster.step plainPlatform)
    (fun _ _ => True) twoNodes (replicateOne ++ [.restart 2 late .heartbeat 0])
    (fun c' => decide (2 ∈ c'.members ∧ ∃ entry ∈ (c'.node 2).logs.entries, entry.index = 1))
    (by decide)
  obtain ⟨hid, entry, hmem, -⟩ := of_decide_eq_true hcheck
  exact ⟨c', hrun, entry, hmem,
    @entriesSubmitted plainPlatform _ _ _ initial_twoNodes hrun _ (.log hid hmem)⟩

theorem treeSubmitted_replicateOne :
    ∃ c', @Run _ _ (@Cluster.step plainPlatform) (@Cluster.TreesHold plainPlatform) twoNodes c' ∧
      ∃ entry added, @Submitted plainPlatform (@Cluster.TreesHold plainPlatform) twoNodes c' entry ∧
        StateMachine.insertionOf entry.command = some added ∧ added.path = "/a" ∧
        added.kind = .directory := by
  obtain ⟨c', hrun, hcheck⟩ := Run.exists_of_exec (@Cluster.step plainPlatform)
    (@Cluster.TreesHold plainPlatform) twoNodes replicateOne
    (fun c' => decide (1 ∈ twoNodes.members ∧
      (c'.node 1).stateMachine.kindAt "/a" = some .directory)) (by decide)
  obtain ⟨hid, hshown⟩ := of_decide_eq_true hcheck
  obtain ⟨entry, added, hsubmitted, -, -, hadded⟩ :=
    @treeSubmitted plainPlatform _ _ initial_twoNodes hrun _ hid _ (by decide) _ hshown
  exact ⟨c', hrun, entry, added, hsubmitted, hadded⟩

end Vosfs.Raft
