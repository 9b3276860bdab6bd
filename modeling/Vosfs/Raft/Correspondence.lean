import Vosfs.Raft.Reachable

/-!
# Directory entries and inodes

In every reachable state each directory entry has its own inode of its kind, each inode is
the target of one entry, and the counter is above all inodes (`Corresponds`), as long as
uploads bring numbers the counter has passed and the counter does not wrap around
(`InRange`).  The first step that is not in range ends in a state that does not correspond
(`entriesCorrespond`).
-/

namespace Vosfs.Raft

namespace StateMachine

variable {sm sm' : StateMachine}

/-- Paths and inodes are in bijection: an entry has an inode of its kind, and an inode one entry. -/
structure Corresponds (sm : StateMachine) : Prop where
  target : ∀ {path entry}, sm.dirEntries.lookup path = some entry →
    ∃ inode, sm.inodes.lookup entry.ino = some inode ∧ inode.isDir = entry.isDir
  distinct : ∀ {path path' entry entry'}, sm.dirEntries.lookup path = some entry →
    sm.dirEntries.lookup path' = some entry' → entry.ino = entry'.ino → path = path'
  owner : ∀ ino ∈ sm.inodes, ∃! path, ∃ entry, sm.dirEntries.lookup path = some entry ∧
    entry.ino = ino
  below : ∀ ino ∈ sm.inodes, ino < sm.nextIno

/-- The request of an entry that adds a file. -/
def uploadRequest? (entry : LogEntry) : Option UploadFileRequest :=
  match entry.command with
  | some (.uploadFile request) => some request
  | _ => none

/-- The step takes its number from below the end of the range, or brings one that the
counter has passed. -/
def InRange (sm : StateMachine) : ReplicaStep → Prop
  | .apply _ _ entry =>
    (sm.acceptsMkdir entry = true → sm.nextIno + 1 < 2 ^ 64) ∧
      (sm.acceptsUploadFile entry = true →
        ∀ request ∈ uploadRequest? entry, request.ino < sm.nextIno)
  | .appendRequest _ _ => True
  | .prepareUploadFile request => request.remotePath ∉ sm.dirEntries → sm.nextIno + 1 < 2 ^ 64

theorem uploadRequest?_eq_some {entry : LogEntry} {request : UploadFileRequest}
    (hcommand : entry.command = some (.uploadFile request)) :
    uploadRequest? entry = some request := by
  simp only [uploadRequest?, hcommand]

/-! ## The tree -/

/-- What `Corresponds` says of the tree, with owners that exist. -/
structure Matched (sm : StateMachine) : Prop where
  target : ∀ {path entry}, sm.dirEntries.lookup path = some entry →
    ∃ inode, sm.inodes.lookup entry.ino = some inode ∧ inode.isDir = entry.isDir
  distinct : ∀ {path path' entry entry'}, sm.dirEntries.lookup path = some entry →
    sm.dirEntries.lookup path' = some entry' → entry.ino = entry'.ino → path = path'
  owner : ∀ ino ∈ sm.inodes, ∃ path entry, sm.dirEntries.lookup path = some entry ∧
    entry.ino = ino

theorem Matched.corresponds (h : Matched sm) (hbelow : ∀ ino ∈ sm.inodes, ino < sm.nextIno) :
    Corresponds sm where
  target := h.target
  distinct := h.distinct
  owner ino hmem := by
    obtain ⟨path, entry, hlookup, hino⟩ := h.owner ino hmem
    refine ⟨path, ⟨entry, hlookup, hino⟩, ?_⟩
    rintro path' ⟨entry', hlookup', hino'⟩
    exact h.distinct hlookup' hlookup (hino'.trans hino.symm)
  below := hbelow

theorem Matched.congr (h : Matched sm) (htree : SameTree sm' sm) : Matched sm' where
  target hlookup := by
    rw [htree.dirEntries] at hlookup
    rw [htree.inodes]
    exact h.target hlookup
  distinct hlookup hlookup' := by
    rw [htree.dirEntries] at hlookup hlookup'
    exact h.distinct hlookup hlookup'
  owner ino hmem := by
    obtain ⟨path, entry, hlookup, hino⟩ := h.owner ino (htree.inodes.mem_iff.mp hmem)
    exact ⟨path, entry, by rwa [htree.dirEntries], hino⟩

/-- A new inode with its entry, at a new number and a new path. -/
theorem Matched.link (h : Matched sm) {parentPath name : String} {parentIno : ℕ}
    {parentInode inode : Inode} {entry : DirEntry}
    (hplaced : Placed sm parentPath parentIno parentInode entry.path name)
    (hfresh : inode.ino ∉ sm.inodes) (hino : entry.ino = inode.ino)
    (hkind : inode.isDir = entry.isDir) :
    Matched (sm.link parentIno parentInode inode entry) := by
  have hparent := UnorderedMap.mem_iff_lookup.mpr ⟨_, hplaced.inode⟩
  have hold : ∀ {path found}, sm.dirEntries.lookup path = some found →
      path ≠ entry.path ∧ found.ino ≠ inode.ino := by
    intro path found hlookup
    refine ⟨?_, ?_⟩
    · rintro rfl
      exact hplaced.fresh (UnorderedMap.mem_iff_lookup.mpr ⟨_, hlookup⟩)
    · intro heq
      obtain ⟨inode', hlookup', -⟩ := h.target hlookup
      exact hfresh (heq ▸ UnorderedMap.mem_iff_lookup.mpr ⟨_, hlookup'⟩)
  constructor
  · intro path found hlookup
    rw [lookup_link_dirEntries hplaced.fresh] at hlookup
    split_ifs at hlookup with hpath
    · cases hlookup
      rw [lookup_link_inodes hparent, hino,
        if_neg (fun heq : inode.ino = parentIno => hfresh (heq ▸ hparent)), if_pos ⟨rfl, hfresh⟩]
      exact ⟨inode, rfl, hkind⟩
    · obtain ⟨inode', hlookup', hkind'⟩ := h.target hlookup
      exact ⟨_, lookup_link_inodes_of_lookup inode entry hplaced.inode hlookup', hkind'⟩
  · intro path path' found found' hlookup hlookup' hsame
    rw [lookup_link_dirEntries hplaced.fresh] at hlookup hlookup'
    split_ifs at hlookup with hpath <;> split_ifs at hlookup' with hpath'
    · exact hpath.trans hpath'.symm
    · cases hlookup
      exact absurd (hsame.symm.trans hino) (hold hlookup').2
    · cases hlookup'
      exact absurd (hsame.trans hino) (hold hlookup).2
    · exact h.distinct hlookup hlookup' hsame
  · intro ino hmem
    rcases (mem_inodes_link hparent).mp hmem with rfl | hmem
    · exact ⟨entry.path, entry, by rw [lookup_link_dirEntries hplaced.fresh, if_pos rfl], hino⟩
    · obtain ⟨path, found, hlookup, hfound⟩ := h.owner ino hmem
      refine ⟨path, found, ?_, hfound⟩
      rw [lookup_link_dirEntries hplaced.fresh, if_neg (hold hlookup).1, hlookup]

theorem matched_create (dataNodes : List ℕ) : Matched (create dataNodes) := by
  constructor
  · intro path entry hlookup
    obtain ⟨rfl, rfl⟩ := dirEntries_create hlookup
    exact ⟨rootInode, rfl, rfl⟩
  · intro path path' entry entry' hlookup hlookup' _
    exact (dirEntries_create hlookup).1.trans (dirEntries_create hlookup').1.symm
  · intro ino hmem
    exact ⟨"/", rootEntry, rfl, ((mem_create_inodes dataNodes).mp hmem).symm⟩

/-! ## The counter -/

theorem maxIno_le_iff (inodes : UnorderedMap ℕ Inode) (n : ℕ) :
    maxIno inodes ≤ n ↔ ∀ inode ∈ inodes.values, inode.ino ≤ n := by
  unfold maxIno
  have hfold : ∀ (values : List Inode) (m : ℕ),
      values.foldl (fun maxIno inode => max maxIno inode.ino) m ≤ n ↔
        m ≤ n ∧ ∀ inode ∈ values, inode.ino ≤ n := by
    intro values
    induction values with
    | nil => simp
    | cons inode values ih =>
      intro m
      rw [List.foldl_cons, ih, max_le_iff, List.forall_mem_cons, and_assoc]
  rw [hfold]
  exact and_iff_right (Nat.zero_le n)

/-- After loading a tree whose numbers are in range, the counter is above them. -/
theorem below_of_load (hkeyed : Keyed sm) (hmem : 0 ∈ sm.inodes) {bound : ℕ}
    (hbound : bound < 2 ^ 64) (hin : ∀ ino ∈ sm.inodes, ino < bound)
    (hnext : sm.nextIno = u64 (maxIno sm.inodes + 1)) : ∀ ino ∈ sm.inodes, ino < sm.nextIno := by
  have hvalues : ∀ inode ∈ sm.inodes.values, inode.ino ∈ sm.inodes := by
    intro inode hinode
    obtain ⟨ino, hlookup⟩ := UnorderedMap.mem_values.mp hinode
    rw [hkeyed.inodes hlookup]
    exact UnorderedMap.mem_iff_lookup.mpr ⟨inode, hlookup⟩
  have hpos := hin 0 hmem
  have hmax : maxIno sm.inodes ≤ bound - 1 :=
    (maxIno_le_iff _ _).mpr fun inode hinode => Nat.le_sub_one_of_lt (hin _ (hvalues inode hinode))
  have hsucc : u64 (maxIno sm.inodes + 1) = maxIno sm.inodes + 1 :=
    Nat.mod_eq_of_lt (by omega)
  intro ino hino
  obtain ⟨inode, hlookup⟩ := UnorderedMap.mem_iff_lookup.mp hino
  have hle := (maxIno_le_iff sm.inodes _).mp le_rfl inode
    (UnorderedMap.mem_values.mpr ⟨ino, hlookup⟩)
  have hkey : inode.ino = ino := hkeyed.inodes hlookup
  omega

/-! ## Steps -/

/-- The tree matches, the counter is above it and within its range. -/
structure Counted (sm : StateMachine) : Prop where
  tree : Matched sm
  below : ∀ ino ∈ sm.inodes, ino < sm.nextIno
  bounded : sm.nextIno < 2 ^ 64

theorem counted_create (dataNodes : List ℕ) : Counted (create dataNodes) where
  tree := matched_create dataNodes
  below ino hmem := by
    rw [(mem_create_inodes dataNodes).mp hmem]
    exact Nat.one_pos
  bounded := Nat.mod_lt _ (by decide)

theorem Counted.next (h : Counted sm) {step : ReplicaStep} (hrange : sm.InRange step)
    (hchange : Change sm sm' step) : Counted sm' := by
  cases hchange with
  | keeps _ tree nextIno =>
    refine ⟨h.tree.congr tree, fun ino hmem => ?_, nextIno ▸ h.bounded⟩
    rw [nextIno]
    exact h.below ino (tree.inodes.mem_iff.mp hmem)
  | prepares fresh tree nextIno =>
    have hfits : sm.nextIno + 1 < 2 ^ 64 := hrange fresh
    rw [u64, Nat.mod_eq_of_lt hfits] at nextIno
    refine ⟨h.tree.congr tree, fun ino hmem => ?_, by omega⟩
    have hlt := h.below ino (tree.inodes.mem_iff.mp hmem)
    omega
  | creates accepts placed tree nextIno =>
    have hfits : sm.nextIno + 1 < 2 ^ 64 := hrange.1 accepts
    rw [u64, Nat.mod_eq_of_lt hfits] at nextIno
    have hfresh : sm.nextIno ∉ sm.inodes := fun hmem => absurd (h.below _ hmem) (lt_irrefl _)
    have hparent := UnorderedMap.mem_iff_lookup.mpr ⟨_, placed.inode⟩
    refine ⟨(h.tree.link placed hfresh rfl rfl).congr tree, fun ino hmem => ?_, by omega⟩
    rcases (mem_inodes_link hparent).mp (tree.inodes.mem_iff.mp hmem) with hnew | hold
    · have hnew : ino = sm.nextIno := hnew
      omega
    · have hlt := h.below ino hold
      omega
  | uploads command accepts fresh child placed tree nextIno =>
    have hlt := hrange.2 accepts _ (uploadRequest?_eq_some command)
    have hparent := UnorderedMap.mem_iff_lookup.mpr ⟨_, placed.inode⟩
    refine ⟨(h.tree.link placed fresh rfl rfl).congr tree, fun ino hmem => ?_, nextIno ▸ h.bounded⟩
    rw [nextIno]
    rcases (mem_inodes_link hparent).mp (tree.inodes.mem_iff.mp hmem) with hnew | hold
    · exact hnew ▸ hlt
    · exact h.below ino hold

/-- A step out of range puts the counter at or below a number in use. -/
theorem not_corresponds_of_not_inRange (h : Counted sm) (hroot : 0 ∈ sm.inodes)
    {step : ReplicaStep} (hrange : ¬ sm.InRange step) (hchange : Change sm sm' step) :
    ¬ Corresponds sm' := by
  intro hcorresponds
  have hbounded := h.bounded
  have hwrap : ∀ {n}, ¬ n + 1 < 2 ^ 64 → n < 2 ^ 64 → u64 (n + 1) = 0 := by
    intro n hlarge hsmall
    rw [show n + 1 = 2 ^ 64 by omega]
    rfl
  have hzero : 0 < sm'.nextIno := hcorresponds.below 0 (hchange.mem_inodes hroot)
  cases hchange with
  | @keeps step quiet tree nextIno =>
    apply hrange
    cases step with
    | apply asLeader currentMs entry =>
      exact ⟨fun haccept => by simp [quiet.1] at haccept,
        fun haccept => by simp [quiet.2] at haccept⟩
    | appendRequest => trivial
    | prepareUploadFile request => exact fun hnew => absurd quiet hnew
  | prepares fresh tree nextIno =>
    rw [hwrap (fun hfits => hrange fun _ => hfits) hbounded] at nextIno
    omega
  | @creates _ _ entry _ _ _ _ accepts placed tree nextIno =>
    have hlarge : ¬ sm.nextIno + 1 < 2 ^ 64 := by
      intro hfits
      refine hrange ⟨fun _ => hfits, fun hupload => ?_⟩
      rw [acceptsMkdir_of_acceptsUploadFile hupload] at accepts
      cases accepts
    rw [hwrap hlarge hbounded] at nextIno
    omega
  | uploads command accepts fresh child placed tree nextIno =>
    have hparent := UnorderedMap.mem_iff_lookup.mpr ⟨_, placed.inode⟩
    have hlt := hcorresponds.below _
      (tree.inodes.mem_iff.mpr ((mem_inodes_link hparent).mpr (Or.inl rfl)))
    rw [nextIno] at hlt
    refine hrange ⟨fun hmkdir => ?_, fun _ request hrequest => ?_⟩
    · rw [acceptsMkdir_of_acceptsUploadFile accepts] at hmkdir
      cases hmkdir
    · rw [uploadRequest?_eq_some command] at hrequest
      cases hrequest
      exact hlt

section Theorem

variable [Platform]

theorem Reachable.counted (hreach : Reachable InRange sm) : Counted sm := by
  refine hreach.invariant Counted counted_create (fun _ _ h hrange hchange => h.next hrange hchange)
    fun {other loaded} hkeyed hroot h htree hnext => ?_
  have hin : ∀ ino ∈ loaded.inodes, ino < other.nextIno :=
    fun ino hmem => h.below ino (htree.inodes.mem_iff.mp hmem)
  refine ⟨h.tree.congr htree, ?_, hnext ▸ Nat.mod_lt _ (by decide)⟩
  exact below_of_load (hkeyed.congr htree) (htree.inodes.mem_iff.mpr hroot) h.bounded hin hnext

/-- **Directory entries and inodes correspond** in every state reached in range, and after
one more step if and only if that step is in range. -/
theorem entriesCorrespond (hreach : Reachable InRange sm) :
    Corresponds sm ∧ ∀ step sm', sm.replicaStep step = some sm' →
      (Corresponds sm' ↔ sm.InRange step) := by
  have hcounted := hreach.counted
  refine ⟨hcounted.tree.corresponds hcounted.below, fun step sm' hstep => ⟨fun h => ?_, fun h => ?_⟩⟩
  · by_contra hrange
    exact not_corresponds_of_not_inRange hcounted hreach.keyed_root.2 hrange
      (change_of_step hstep) h
  · have hnext := (hreach.next h hstep).counted
    exact hnext.tree.corresponds hnext.below

end Theorem

/-! ## A number from each source -/

instance : ∀ step : ReplicaStep, Decidable (sm.InRange step)
  | .apply _ _ _ => inferInstanceAs (Decidable ((_ → _) ∧ (_ → _)))
  | .appendRequest _ _ => inferInstanceAs (Decidable True)
  | .prepareUploadFile _ => inferInstanceAs (Decidable (_ → _))

/-- A directory, and a file in it whose number was prepared. -/
theorem entriesCorrespond_prepared :
    ∃ sm, @Reachable plainPlatform InRange sm ∧ 2 ∈ sm.inodes ∧ Corresponds sm := by
  obtain ⟨sm, hrun, hmem⟩ := Run.exists_of_exec (@replicaStep plainPlatform) InRange (create [7])
    [.apply true 40 makeDirectory, prepareTo "/a/f", .apply true 50 (uploadTo 2 "/a/f")]
    (fun sm => decide (2 ∈ sm.inodes)) (by decide)
  have hreach := @Reachable.of_run _ _ plainPlatform _ (@Reachable.create plainPlatform _ [7]) hrun
  exact ⟨sm, hreach, of_decide_eq_true hmem, (@entriesCorrespond _ plainPlatform hreach).1⟩

/-- A file whose number was not prepared, and a directory that gets the same number. -/
theorem exists_directory_without_inode :
    ∃ sm, @Reachable plainPlatform (fun _ _ => True) sm ∧ ¬ Corresponds sm := by
  obtain ⟨sm, hrun, hkinds⟩ := Run.exists_of_exec (@replicaStep plainPlatform) (fun _ _ => True)
    (create [7]) [.apply true 40 (uploadTo 1 "/f"), .apply true 50 makeDirectory]
    (fun sm => (sm.dirEntries.lookup "/a").any fun entry =>
      entry.isDir && (sm.inodes.lookup entry.ino).any fun inode => !inode.isDir) (by decide)
  refine ⟨sm, @Reachable.of_run _ _ plainPlatform _ (@Reachable.create plainPlatform _ [7]) hrun,
    fun h => ?_⟩
  obtain ⟨entry, hlookup, hkind⟩ := Option.any_eq_true .. |>.mp hkinds
  obtain ⟨inode, hinode, hsame⟩ := h.target hlookup
  rw [← hsame, hinode] at hkind
  simp at hkind

end StateMachine

end Vosfs.Raft
