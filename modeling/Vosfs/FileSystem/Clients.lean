import Vosfs.FileSystem.Replication

/-!
# What clients can rely on

Clients see the cluster through replies.  In runs that keep the trees,

* two answers never contradict each other, whichever members gave them and whenever
  (`answersAgree`): a file has the same blocks in all of them, and of two listings of a directory
  one has all that the other one has;
* a directory or a file whose creation was confirmed is there for good (`confirmedStays`): every
  later leader has the entry in its log, and every member that has applied it shows it;
* a path is created once (`createdOnce`): all who are told that they created it are told so about
  one entry.

All this is read off the replicas (`clusterRefines`), where what is shown only grows.
-/

namespace Vosfs.Raft

open Consensus Function

/-! ## Answers that agree -/

/-- All that is listed first is listed second. -/
def Within (entries entries' : List DirEntry) : Prop :=
  ∀ entry ∈ entries, ∃ entry' ∈ entries',
    entry'.path = entry.path ∧ entry'.name = entry.name ∧ entry'.isDir = entry.isDir

/-- Two answers do not contradict each other. -/
def Agree : Reply → Reply → Prop
  | .listDir response, .listDir response' =>
    response.statusCode = .ok → response'.statusCode = .ok → response.path = response'.path →
      Within response.dirEntries response'.dirEntries ∨
        Within response'.dirEntries response.dirEntries
  | .prepareDownloadFile response, .prepareDownloadFile response' =>
    response.statusCode = .ok → response'.statusCode = .ok →
      response.remotePath = response'.remotePath → response.blocks = response'.blocks
  | _, _ => True

section Namespaces

variable {ns ns' : Namespace (List BlockInfo)} {entries entries' : List DirEntry} {parent : String}

theorem within_of_le (hle : ns ≤ ns') (hlists : StateMachine.Lists ns parent entries)
    (hlists' : StateMachine.Lists ns' parent entries') : Within entries entries' := by
  intro entry hmem
  obtain ⟨kind, hlisted, hkind⟩ :=
    (hlists.mem_iff entry.path entry.name entry.isDir).mp ⟨entry, hmem, rfl, rfl, rfl⟩
  obtain ⟨entry', hmem', hpath, hname, hdir⟩ :=
    (hlists'.mem_iff entry.path entry.name entry.isDir).mpr ⟨kind, hlisted.of_le hle, hkind⟩
  exact ⟨entry', hmem', hpath, hname, hdir⟩

/-- Answers from namespaces of which one shows more. -/
theorem agree_of_le_or_le (hle : ns ≤ ns' ∨ ns' ≤ ns) {reply reply' : Reply}
    (hanswers : Answers ns reply) (hanswers' : Answers ns' reply') : Agree reply reply' := by
  cases reply <;> cases reply' <;> try trivial
  case listDir.listDir response response' =>
    intro hok hok' hpath
    have hlists := (hanswers hok).2
    have hlists' := (hanswers' hok').2
    rw [← hpath] at hlists'
    rcases hle with hle | hle
    · exact Or.inl (within_of_le hle hlists hlists')
    · exact Or.inr (within_of_le hle hlists' hlists)
  case prepareDownloadFile.prepareDownloadFile response response' =>
    intro hok hok' hpath
    obtain ⟨kind, hfind, hblocks⟩ := hanswers hok
    obtain ⟨kind', hfind', hblocks'⟩ := hanswers' hok'
    rw [← hpath] at hfind'
    have hsame : kind = kind' := by
      rcases hle with hle | hle
      · exact Option.some.inj ((Namespace.find_of_le hle hfind).symm.trans hfind')
      · exact Option.some.inj (hfind.symm.trans (Namespace.find_of_le hle hfind'))
    rw [hblocks, hblocks', hsame]

end Namespaces

section Theorems

variable [Platform] {c c' c'' : Cluster}

/-- Replies are not forgotten. -/
theorem Cluster.replies_of_step {action : Action} (hstep : c.step action = some c') :
    c.replies ⊆ c'.replies := by
  cases action with
  | handle id env input =>
    obtain ⟨-, _, _, _, -, -, rfl⟩ := Cluster.step_handle hstep
    exact List.subset_append_left _ _
  | lose packet =>
    obtain ⟨_, -, rfl⟩ := Option.map_eq_some_iff.mp hstep
    exact List.Subset.refl _
  | restart id env input lost =>
    obtain ⟨-, _, _, -, -, rfl⟩ := Cluster.step_restart hstep
    exact List.Subset.refl _

theorem Cluster.replies_of_run {allowed : Cluster → Action → Prop}
    (hrun : Run Cluster.step allowed c c') : c.replies ⊆ c'.replies := by
  induction hrun with
  | refl => exact List.Subset.refl _
  | next _ _ hstep ih => exact List.Subset.trans ih (Cluster.replies_of_step hstep)

/-- **Answers agree**, those of all members and of all times, while the steps keep the trees. -/
theorem answersAgree (hinit : c.Initial) (hrun : Run Cluster.step Cluster.TreesHold c c') :
    ∀ reply ∈ c'.replies, ∀ reply' ∈ c'.replies, Agree reply.2 reply'.2 := by
  obtain ⟨r, -, -, -, hrefines, -⟩ := clusterRefines hinit hrun .refl
  intro reply hreply reply' hreply'
  obtain ⟨k, -, hanswers⟩ := hrefines.replies reply hreply
  obtain ⟨k', -, hanswers'⟩ := hrefines.replies reply' hreply'
  have hordered := StateMachine.growing_fileSystem.take_le_or_le r.log k k'
  exact agree_of_le_or_le hordered hanswers hanswers'

/-! ## What is confirmed stays -/

omit [Platform] in
/-- What was accepted at an index is shown by all who are past it. -/
theorem Cluster.Refines.kindAt_of_fits {r : Replicas ℕ (Option EntryCommand)} (hrefines : c.Refines r)
    {m index : ℕ} (hm : m ∈ c.members) (hle : index ≤ (c.node m).lastApplied) (hpos : 0 < index)
    {command : Option EntryCommand} (hget : r.log[index - 1]? = some command)
    {added : Insertion (List BlockInfo)} (hadded : StateMachine.insertionOf command = some added)
    (hfits : (StateMachine.fileSystem.replay (r.log.take (index - 1))).Fits added) :
    (c.node m).stateMachine.kindAt added.path = some added.kind := by
  obtain ⟨k, rfl⟩ : ∃ k, index = k + 1 := ⟨index - 1, by omega⟩
  rw [Nat.add_sub_cancel] at hget hfits
  have hstep : r.log.take (k + 1) = r.log.take k ++ [command] := by
    rw [List.take_add_one, hget]
    rfl
  have hnow : (StateMachine.fileSystem.replay (r.log.take (k + 1))).find added.path =
      some added.kind := by
    rw [hstep, Machine.replay_concat, StateMachine.fileSystem_apply_of_eq hadded,
      Namespace.find_add_of_fits hfits, if_pos rfl]
  have hgrows : StateMachine.fileSystem.replay (r.log.take (k + 1)) ≤
      r.view StateMachine.fileSystem m :=
    StateMachine.growing_fileSystem.take_mono (hrefines.position m hm ▸ hle)
  rw [(hrefines.shows m hm).find]
  exact Namespace.find_of_le hgrows hnow

omit [Platform] in
/-- A leader has the entries that a majority confirmed in its term or an earlier one. -/
theorem Sim.getEntry_of_chosen {members : Finset ℕ} {node : ℕ → RaftNode} {network : List Packet}
    {h : History ℕ LogEntry} {level : ℕ} (hs : Sim level members node network h)
    (hlevel : 3 ≤ level) {l T i k : ℕ} {entry : LogEntry} (hl : l ∈ members)
    (hrole : (node l).role = .leader) (hterm : T ≤ (node l).currentTerm)
    (hchosen : h.Chosen members T i) (hk : k ≤ i) (hentry : (h.leaderLog T)[k]? = some entry) :
    (node l).logs.getEntry (k + 1) = some entry := by
  have hn := hs.nodes l hl
  have hr := hs.replicated (by omega)
  have hlead := hr.matching.leading (hn.votes.leader hrole) hn.votes.term
  rw [(hn.log (by omega)).log] at hlead
  have hpre := Inherited.leaderLog_prefix (hs.inherited hlevel) hs.election hr.matching hchosen
    hterm (hn.votes.leader hrole)
  have hlen : k < (h.upTo T i).length := by
    rw [History.length_upTo hchosen.1.lt_length]
    omega
  rw [hn.votes.fromStart.getEntry, hlead, List.prefix_iff_getElem?.mp hpre k hlen,
    ← List.getElem?_eq_getElem hlen, History.upTo, List.getElem?_take_of_lt (by omega), hentry]

/-- **What is confirmed stays**, while the steps keep the trees.  Where a client was told that
something was added, the leaders of this term and of later ones have the entry, and whoever has
applied it shows what it added. -/
theorem confirmedStays (hinit : c.Initial) (hrun : Run Cluster.step Cluster.TreesHold c c')
    (hlater : Run Cluster.step Cluster.TreesHold c' c'') {m index : ℕ} (hm : m ∈ c.members)
    {response : PendingResponse}
    (htold : (index, response) ∈ (c'.node m).stateMachine.resumed)
    (hok : response.isOk = true) :
    ∃ entry added, StateMachine.insertionOf entry.command = some added ∧
      response.Confirms added ∧
      (∀ l ∈ c.members, (c''.node l).role = .leader →
        (c'.node m).currentTerm ≤ (c''.node l).currentTerm →
          (c''.node l).logs.getEntry index = some entry) ∧
      ∀ l ∈ c.members, index ≤ (c''.node l).lastApplied →
        (c''.node l).stateMachine.kindAt added.path = some added.kind := by
  obtain ⟨h, r, -, -, hs, hbacked, hcovered, hrefines⟩ := (Follows.initial hinit).run hrun
  have hfollows : Follows c' h r := ⟨hs, hbacked, hcovered, hrefines⟩
  obtain ⟨h', r', hg, hreaches, hs', -, -, hrefines'⟩ := hfollows.run hlater
  have hmembers := Cluster.members_of_run hrun
  have hmembers' := Cluster.members_of_run hlater
  have hmatching := (hs.replicated (by decide)).matching
  obtain ⟨hle, command, hpos, hget, added, hadded, hfits, hconfirms⟩ :=
    hrefines.confirmed m (hmembers ▸ hm) _ htold hok
  obtain ⟨T', i', entry, hchosen', hi', hentry', rfl⟩ := hbacked _ _ hget
  -- the entry is that of a leader whose term the member knows
  obtain ⟨T, hT, i, hchosen, hi⟩ : ∃ T ≤ (c'.node m).currentTerm, ∃ i,
      h.Chosen c'.members T i ∧ index ≤ i + 1 := by
    rcases hcovered m (hmembers ▸ hm) with hzero | ⟨T, hT, i, hchosen, hi⟩
    · dsimp only at hle
      omega
    · exact ⟨T, hT, i, hchosen, hle.trans hi⟩
  have hentry : (h.leaderLog T)[index - 1]? = some entry := by
    rw [Inherited.chosen_agree (hs.inherited le_rfl) hs.election hmatching hchosen hchosen'
      (by omega) hi']
    exact hentry'
  obtain ⟨first, hfirst⟩ := History.Chosen.exists_leader hmatching hchosen
  refine ⟨entry, added, hadded, hconfirms, fun l hl hrole hterm => ?_, fun l hl hpast => ?_⟩
  · obtain ⟨hlt, rfl⟩ := List.getElem?_eq_some_iff.mp hentry
    have hlater' := List.prefix_iff_getElem?.mp (hg.leaderLog hfirst) (index - 1) hlt
    have hchosen'' : h'.Chosen c''.members T i := hmembers' ▸ hg.chosen hmatching hchosen
    have hlog := hs'.getEntry_of_chosen le_rfl (hmembers' ▸ hmembers ▸ hl) hrole (hT.trans hterm)
      hchosen'' (k := index - 1) (by omega) hlater'
    rwa [Nat.sub_add_cancel hpos] at hlog
  · obtain ⟨more, hmore⟩ := Replicas.log_isPrefix_of_run hreaches
    have hlt := (List.getElem?_eq_some_iff.mp hget).1
    refine hrefines'.kindAt_of_fits (hmembers' ▸ hmembers ▸ hl) hpast hpos ?_ hadded ?_
    · rw [← hmore, List.getElem?_append_left hlt, hget]
    · rwa [← hmore, List.take_append_of_le_length hlt.le]

/-! ## What is created is new -/

omit [Platform] in
/-- The text of a response names the path. -/
theorem PendingResponse.path_eq_of_confirms {response : PendingResponse}
    {added added' : Insertion (List BlockInfo)} (hconfirms : response.Confirms added)
    (hconfirms' : response.Confirms added') : added.path = added'.path := by
  cases response with
  | notSet => exact hconfirms.elim
  | mkdir response => exact (String.append_right_inj _).mp (hconfirms.1.symm.trans hconfirms'.1)
  | uploadFile response =>
    exact (String.append_right_inj _).mp (hconfirms.1.symm.trans hconfirms'.1)

omit [Platform] in
/-- After a path was accepted it is not accepted again. -/
theorem Cluster.Accepted.le {log : List (Option EntryCommand)} {told told' : ℕ × PendingResponse}
    (haccepted : Accepted log told) (haccepted' : Accepted log told')
    {added added' : Insertion (List BlockInfo)} (hconfirms : told.2.Confirms added)
    (hconfirms' : told'.2.Confirms added') (hpath : added.path = added'.path) :
    told'.1 ≤ told.1 := by
  obtain ⟨command, hpos, hget, accepted, hinsertion, hfits, hsays⟩ := haccepted
  obtain ⟨command', hpos', hget', accepted', hinsertion', hfits', hsays'⟩ := haccepted'
  by_contra hlt
  have hsame : accepted.path = accepted'.path :=
    calc accepted.path = added.path := PendingResponse.path_eq_of_confirms hsays hconfirms
      _ = added'.path := hpath
      _ = accepted'.path := PendingResponse.path_eq_of_confirms hconfirms' hsays'
  have hstep : log.take told.1 = log.take (told.1 - 1) ++ [command] := by
    obtain ⟨k, hk⟩ : ∃ k, told.1 = k + 1 := ⟨told.1 - 1, by omega⟩
    rw [hk, Nat.add_sub_cancel] at hget ⊢
    rw [List.take_add_one, hget]
    rfl
  have hthere : (StateMachine.fileSystem.replay (log.take told.1)).find accepted'.path =
      some accepted.kind := by
    rw [hstep, Machine.replay_concat, StateMachine.fileSystem_apply_of_eq hinsertion,
      Namespace.find_add_of_fits hfits, if_pos hsame.symm]
  have hgrows : StateMachine.fileSystem.replay (log.take told.1) ≤
      StateMachine.fileSystem.replay (log.take (told'.1 - 1)) :=
    StateMachine.growing_fileSystem.take_mono (by omega)
  have hfree := hfits'.free
  rw [Namespace.find_of_le hgrows hthere] at hfree
  cases hfree

/-- **A path is created once**, whoever is told so, and whenever, while the steps keep the trees. -/
theorem createdOnce (hinit : c.Initial) (hrun : Run Cluster.step Cluster.TreesHold c c')
    (hlater : Run Cluster.step Cluster.TreesHold c' c'') {m m' : ℕ} (hm : m ∈ c.members)
    (hm' : m' ∈ c.members) {told told' : ℕ × PendingResponse}
    (htold : told ∈ (c'.node m).stateMachine.resumed)
    (htold' : told' ∈ (c''.node m').stateMachine.resumed) (hok : told.2.isOk = true)
    (hok' : told'.2.isOk = true) {added added' : Insertion (List BlockInfo)}
    (hconfirms : told.2.Confirms added) (hconfirms' : told'.2.Confirms added')
    (hpath : added.path = added'.path) : told.1 = told'.1 := by
  obtain ⟨r, r', -, hreaches, hrefines, hrefines'⟩ := clusterRefines hinit hrun hlater
  have hmem : m ∈ c'.members := Cluster.members_of_run hrun ▸ hm
  have hmem' : m' ∈ c''.members :=
    Cluster.members_of_run hlater ▸ Cluster.members_of_run hrun ▸ hm'
  have haccepted : Cluster.Accepted r'.log told :=
    (hrefines.confirmed m hmem told htold hok).2.of_isPrefix (Replicas.log_isPrefix_of_run hreaches)
  have haccepted' : Cluster.Accepted r'.log told' :=
    (hrefines'.confirmed m' hmem' told' htold' hok').2
  exact le_antisymm (haccepted'.le haccepted hconfirms' hconfirms hpath.symm)
    (haccepted.le haccepted' hconfirms hconfirms' hpath)

end Theorems

/-! ## A directory that was confirmed -/

theorem answersAgree_listAndFollow :
    ∃ c', @Run _ _ (@Cluster.step plainPlatform) (@Cluster.TreesHold plainPlatform) twoNodes c' ∧
      c'.replies.length = 2 ∧ ∀ reply ∈ c'.replies, ∀ reply' ∈ c'.replies, Agree reply.2 reply'.2 := by
  obtain ⟨c', hrun, hcheck⟩ := Run.exists_of_exec (@Cluster.step plainPlatform)
    (@Cluster.TreesHold plainPlatform) twoNodes
    (electOfTwo ++ .handle 1 late (.listDir { path := "/" }) ::
      (replicateOne.drop electOfTwo.length ++ listAndFollow))
    (fun c' => decide (c'.replies.length = 2)) (by decide)
  exact ⟨c', hrun, of_decide_eq_true hcheck,
    @answersAgree plainPlatform _ _ initial_twoNodes hrun⟩

/-- Member 1 confirms a directory, and member 2 leads the next term. -/
theorem confirmedStays_electSecond :
    ∃ c c', @Run _ _ (@Cluster.step plainPlatform) (@Cluster.TreesHold plainPlatform) twoNodes c ∧
      @Run _ _ (@Cluster.step plainPlatform) (@Cluster.TreesHold plainPlatform) c c' ∧
      (c'.node 2).role = .leader ∧ (c.node 1).currentTerm < (c'.node 2).currentTerm ∧
      ∃ entry added, StateMachine.insertionOf entry.command = some added ∧
        (c'.node 2).logs.getEntry 1 = some entry ∧
        (c'.node 1).stateMachine.kindAt added.path = some added.kind := by
  obtain ⟨c, c', hrun, hlater, hcheck⟩ := Run.exists_later_of_exec (@Cluster.step plainPlatform)
    (@Cluster.TreesHold plainPlatform) (@Cluster.TreesHold plainPlatform)
    twoNodes replicateOne electSecond
    (fun c c' => decide ((c'.node 2).role = .leader ∧
      (c.node 1).currentTerm < (c'.node 2).currentTerm ∧ 1 ≤ (c'.node 1).lastApplied ∧
      1 ∈ twoNodes.members ∧ 2 ∈ twoNodes.members ∧
      ∃ told ∈ (c.node 1).stateMachine.resumed, told.1 = 1 ∧ told.2.isOk = true)) (by decide)
  obtain ⟨hrole, hterm, hpast, hfirst, hsecond, ⟨index, response⟩, htold, rfl, hok⟩ :=
    of_decide_eq_true hcheck
  obtain ⟨entry, added, hadded, -, hlog, hshown⟩ :=
    @confirmedStays plainPlatform _ _ _ initial_twoNodes hrun hlater _ _ hfirst _ htold hok
  exact ⟨c, c', hrun, hlater, hrole, hterm, entry, added, hadded,
    hlog 2 hsecond hrole hterm.le, hshown 1 hfirst hpast⟩

/-- Two clients ask for one directory, and the first one gets it. -/
def createTwice : List Action :=
  electOfTwo ++
    [.handle 1 late (.makeDir (directory "a")),
      .handle 1 late (.makeDir (directory "a")),
      .handle 1 late .heartbeat,
      .handle 2 late (.deliver 1 (batch [created 1 "a", created 2 "a"])),
      .handle 1 late (.deliver 2 (stored 2))]

theorem createdOnce_createTwice :
    ∃ c', @Run _ _ (@Cluster.step plainPlatform) (@Cluster.TreesHold plainPlatform) twoNodes c' ∧
      (c'.node 1).stateMachine.resumed.length = 2 ∧
      ∀ told ∈ (c'.node 1).stateMachine.resumed, told.2.isOk = true →
        told.2.Confirms { parent := "/", name := "a", path := "/a", kind := .directory } →
          told.1 = 1 := by
  obtain ⟨c', hrun, hcheck⟩ := Run.exists_of_exec (@Cluster.step plainPlatform)
    (@Cluster.TreesHold plainPlatform) twoNodes createTwice
    (fun c' => decide (1 ∈ twoNodes.members ∧ (c'.node 1).stateMachine.resumed.length = 2 ∧
      (1, PendingResponse.mkdir
        { statusCode := .ok, message := "创建目录成功：/a", parentPath := "/" }) ∈
          (c'.node 1).stateMachine.resumed)) (by decide)
  obtain ⟨hid, hlength, hfirst⟩ := of_decide_eq_true hcheck
  exact ⟨c', hrun, hlength, fun told htold hok hconfirms =>
    (@createdOnce plainPlatform _ _ _ initial_twoNodes hrun .refl _ _ hid hid _ _ hfirst htold rfl
      hok _ _ ⟨rfl, rfl⟩ hconfirms rfl).symm⟩

end Vosfs.Raft
