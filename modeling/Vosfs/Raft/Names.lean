import Vosfs.Raft.Listing

/-!
# Names in a directory

The map of directory entries keeps paths apart, not names.  A path of two names has one
spelling below every directory but the root: an upload to `"//a"` splits at the second `/`,
finds the root before it, and adds the name `a`, as one to `"/a"` does.

As long as of these two paths only one comes into use (`SpelledOnce`), the names in a listing
are distinct.
-/

namespace Vosfs.Raft

namespace StateMachine

variable {sm sm' : StateMachine}

/-- The other path of a name in the root. -/
def otherSpelling (path : String) : Option String :=
  match path.toList with
  | '/' :: '/' :: name => some (String.ofList ('/' :: name))
  | '/' :: name => some (String.ofList ('/' :: '/' :: name))
  | _ => none

/-- The path that a command would add. -/
def requestedPath (entry : LogEntry) : Option String :=
  match entry.command with
  | some (.mkdir request) => some (childPath request.parentPath request.name)
  | some (.uploadFile request) => some request.path
  | _ => none

/-- No entry is added whose path is in use in its other spelling. -/
def SpelledOnce (sm : StateMachine) : ReplicaStep → Prop
  | .apply _ _ entry => sm.acceptsMkdir entry = true ∨ sm.acceptsUploadFile entry = true →
    ∀ path ∈ requestedPath entry, ∀ other ∈ otherSpelling path, other ∉ sm.dirEntries
  | _ => True

/-! ## The paths of a name -/

theorem path_eq_of_isChild {path parent name : String} (h : IsChild path parent name)
    (hroot : parent ≠ "/") : path = parent ++ "/" ++ name := by
  obtain ⟨front, hpath, -, rfl⟩ := h
  have hfront : front ≠ [] := fun hnil => hroot (by rw [if_pos hnil])
  rw [if_neg hfront]
  exact String.toList_injective (by simpa using hpath)

theorem path_cases_of_isChild_root {path name : String} (h : IsChild path "/" name) :
    path = "/" ++ name ∨ path = "//" ++ name := by
  obtain ⟨front, hpath, -, hparent⟩ := h
  -- what stands before the last slash is nothing, or a slash itself
  by_cases hfront : front = []
  · subst hfront
    exact Or.inl (String.toList_injective (by simpa using hpath))
  · rw [if_neg hfront] at hparent
    have hslash : ['/'] = front := by simpa using congrArg String.toList hparent
    rw [← hslash] at hpath
    exact Or.inr (String.toList_injective (by simpa using hpath))

theorem otherSpelling_single {name : String} (hname : '/' ∉ name.toList) :
    otherSpelling ("/" ++ name) = some ("//" ++ name) := by
  have hlist : ("/" ++ name).toList = '/' :: name.toList := by simp
  unfold otherSpelling
  rw [hlist]
  split
  next rest heq =>
    rw [(List.cons.inj heq).2] at hname
    exact absurd List.mem_cons_self hname
  next rest _ heq =>
    rw [← (List.cons.inj heq).2]
    exact congrArg some (String.toList_injective (by simp))
  next hnot => exact absurd rfl (hnot _)

theorem otherSpelling_double (name : String) :
    otherSpelling ("//" ++ name) = some ("/" ++ name) := by
  have hlist : ("//" ++ name).toList = '/' :: '/' :: name.toList := by simp
  unfold otherSpelling
  rw [hlist]
  exact congrArg some (String.toList_injective (by simp))

/-! ## The paths in use -/

/-- Of the two paths of a name in the root, one is in use. -/
def Spelled (sm : StateMachine) : Prop :=
  ∀ name : String, '/' ∉ name.toList → "/" ++ name ∈ sm.dirEntries → "//" ++ name ∉ sm.dirEntries

theorem Spelled.congr (h : Spelled sm) (htree : SameTree sm' sm) : Spelled sm' := by
  intro name hname
  rw [htree.dirEntries.mem_iff, htree.dirEntries.mem_iff]
  exact h name hname

theorem spelled_create (dataNodes : List ℕ) : Spelled (create dataNodes) := by
  intro name _ _ hdouble
  obtain ⟨entry, hentry⟩ := UnorderedMap.mem_iff_lookup.mp hdouble
  have hroot := congrArg String.toList (dirEntries_create hentry).1
  simp at hroot

theorem requestedPath_of_addition {currentMs : ℕ} {entry : LogEntry} {added : Addition}
    (hadd : sm.addition currentMs entry = some added) :
    (sm.acceptsMkdir entry = true ∨ sm.acceptsUploadFile entry = true) ∧
      requestedPath entry = some added.entry.path := by
  rcases sm.addition_cases currentMs entry with haccept | haccept | hnone
  · obtain ⟨request, parentIno, parentInode, path, hcommand, hcheck⟩ :=
      exists_of_acceptsMkdir haccept
    rw [addition_mkdir currentMs hcommand hcheck] at hadd
    cases hadd
    refine ⟨Or.inl haccept, ?_⟩
    simp only [requestedPath, hcommand, newDirectoryEntry, path_eq_of_checkMkdir hcheck]
  · obtain ⟨request, parentIno, parentInode, name, hcommand, hcheck⟩ :=
      exists_of_acceptsUploadFile haccept
    rw [addition_uploadFile currentMs hcommand hcheck] at hadd
    cases hadd
    refine ⟨Or.inr haccept, ?_⟩
    simp only [requestedPath, hcommand, newFileEntry]
  · rw [hnone] at hadd
    cases hadd

theorem Spelled.extend (h : Spelled sm) {added : Addition}
    (hother : ∀ other ∈ otherSpelling added.entry.path, other ∉ sm.dirEntries) :
    Spelled (sm.extend (some added)) := by
  intro name hname hsingle hdouble
  have hmem : ∀ path, path ∈ (sm.extend (some added)).dirEntries ↔
      path = added.entry.path ∨ path ∈ sm.dirEntries := fun path => UnorderedMap.mem_emplace
  rw [hmem] at hsingle hdouble
  rcases hsingle with hsingle | hsingle <;> rcases hdouble with hdouble | hdouble
  -- one path cannot be both spellings
  · have heq := congrArg String.toList (hsingle.trans hdouble.symm)
    have hlength := congrArg List.length heq
    simp at hlength
  · rw [← hsingle, otherSpelling_single hname] at hother
    exact hother _ rfl hdouble
  · rw [← hdouble, otherSpelling_double] at hother
    exact hother _ rfl hsingle
  · exact h name hname hsingle hdouble

section Theorem

variable [Platform]

theorem Spelled.next (h : Spelled sm) {step : ReplicaStep} (honce : sm.SpelledOnce step)
    (hstep : sm.replicaStep step = some sm') : Spelled sm' := by
  cases step with
  | apply asLeader currentMs entry =>
    cases hstep
    refine Spelled.congr ?_ (sameTree_apply sm asLeader currentMs entry)
    cases hadd : sm.addition currentMs entry with
    | none => exact h
    | some added =>
      obtain ⟨haccept, hpath⟩ := requestedPath_of_addition hadd
      exact h.extend (honce haccept _ hpath)
  | appendRequest logIndex request =>
    cases hstep
    exact h
  | prepareUploadFile request =>
    obtain ⟨⟨next, response⟩, hprepare, rfl⟩ := Option.map_eq_some_iff.mp hstep
    exact h.congr (prepareUploadFile_sameTree hprepare).symm

theorem Reachable.spelled {allowed : StateMachine → ReplicaStep → Prop}
    (hallowed : ∀ {sm step}, allowed sm step → sm.SpelledOnce step)
    (hreach : Reachable allowed sm) : Spelled sm := by
  induction hreach with
  | create dataNodes => exact spelled_create dataNodes
  | next _ hnext hstep ih => exact ih.next (hallowed hnext) hstep
  | @load sm _ _ hother index term _ ih =>
    obtain ⟨hkeyed, hroot⟩ := hother.keyed_root
    exact ih.congr (sameTree_load sm hkeyed hroot index term)

end Theorem

/-! ## Listings -/

/-- Two paths of one name in one directory are the two spellings of it. -/
theorem Spelled.path_unique (h : Spelled sm) {path child child' name : String}
    (hchild : IsChild child path name) (hchild' : IsChild child' path name)
    (hmem : child ∈ sm.dirEntries) (hmem' : child' ∈ sm.dirEntries) : child = child' := by
  by_cases hroot : path = "/"
  · subst hroot
    have hname : '/' ∉ name.toList := hchild.choose_spec.2.1
    rcases path_cases_of_isChild_root hchild with rfl | rfl <;>
      rcases path_cases_of_isChild_root hchild' with rfl | rfl
    · rfl
    · exact absurd hmem' (h name hname hmem)
    · exact absurd hmem (h name hname hmem')
    · rfl
  · rw [path_eq_of_isChild hchild hroot, path_eq_of_isChild hchild' hroot]

/-- The name tells the children of a directory apart. -/
theorem Grown.eq_of_name_eq (h : Grown sm) (hspelled : Spelled sm) {path : String}
    {entry entry' : DirEntry} (hunder : Under sm path entry) (hunder' : Under sm path entry')
    (hname : entry.name = entry'.name) : entry = entry' := by
  obtain ⟨child, name, hroot, hchild, hlookup⟩ := hunder
  obtain ⟨child', name', hroot', hchild', hlookup'⟩ := hunder'
  -- the entries carry the names that their paths end with
  obtain ⟨parent, hparent, -⟩ := (h.located hlookup hroot).parent
  obtain ⟨parent', hparent', -⟩ := (h.located hlookup' hroot').parent
  obtain rfl := (hchild.unique hparent).2
  obtain rfl := (hchild'.unique hparent').2
  rw [← hname] at hchild'
  obtain rfl := hspelled.path_unique hchild hchild'
    (UnorderedMap.mem_iff_lookup.mpr ⟨_, hlookup⟩) (UnorderedMap.mem_iff_lookup.mpr ⟨_, hlookup'⟩)
  exact Option.some.inj (hlookup.symm.trans hlookup')

theorem Children.nodup_names (h : Grown sm) (hspelled : Spelled sm) {path : String}
    {entries : List DirEntry} (hchildren : Children sm path entries) :
    (entries.map DirEntry.name).Nodup := by
  refine List.Nodup.map_on (fun entry hmem entry' hmem' hname => ?_) hchildren.nodup
  exact h.eq_of_name_eq hspelled ((hchildren.mem_iff entry).mp hmem)
    ((hchildren.mem_iff entry').mp hmem') hname

/-- **The names in a listing are distinct.** -/
theorem namesDistinct [Platform]
    (hreach : Reachable (fun sm step => sm.NewToDirectories step ∧ sm.SpelledOnce step) sm)
    (request : ListDirRequest) : ((sm.ls request).dirEntries.map DirEntry.name).Nodup := by
  have hgrown : Grown sm := hreach.grown And.left
  have hspelled : Spelled sm := hreach.spelled And.right
  cases hlookup : sm.dirEntries.lookup request.path with
  | none => simp [ls, hlookup]
  | some entry =>
    cases hdir : entry.isDir with
    | false => simp [ls, hlookup, hdir]
    | true => exact (hgrown.isTree.listed hlookup hdir).2.nodup_names hgrown hspelled

/-! ## A name twice -/

instance : ∀ step : ReplicaStep, Decidable (sm.SpelledOnce step)
  | .apply _ _ entry => inferInstanceAs (Decidable (_ → ∀ path ∈ requestedPath entry,
      ∀ other ∈ otherSpelling path, other ∉ sm.dirEntries))
  | .appendRequest _ _ | .prepareUploadFile _ => inferInstanceAs (Decidable True)

/-- A directory, and a file whose path has two slashes. -/
theorem namesDistinct_twoSlashes :
    ∃ sm, @Reachable plainPlatform
        (fun sm step => sm.NewToDirectories step ∧ sm.SpelledOnce step) sm ∧
      (sm.ls { path := "/" }).dirEntries.map DirEntry.path = ["/a", "//f"] ∧
      ((sm.ls { path := "/" }).dirEntries.map DirEntry.name).Nodup := by
  obtain ⟨sm, hrun, hpaths⟩ := Run.exists_of_exec (@replicaStep plainPlatform)
    (fun sm step => sm.NewToDirectories step ∧ sm.SpelledOnce step) (create [7])
    [.apply true 40 makeDirectory, .apply true 50 (uploadTo 2 "//f")]
    (fun sm => decide ((sm.ls { path := "/" }).dirEntries.map DirEntry.path = ["/a", "//f"]))
    (by decide)
  have hreach := @Reachable.of_run _ _ plainPlatform _ (@Reachable.create plainPlatform _ [7]) hrun
  exact ⟨sm, hreach, of_decide_eq_true hpaths, @namesDistinct _ plainPlatform hreach _⟩

theorem exists_name_twice :
    ∃ sm, @Reachable plainPlatform (fun _ _ => True) sm ∧
      ¬ ((sm.ls { path := "/" }).dirEntries.map DirEntry.name).Nodup := by
  obtain ⟨sm, hrun, htwice⟩ := Run.exists_of_exec (@replicaStep plainPlatform) (fun _ _ => True)
    (create [7]) [.apply true 40 makeDirectory, .apply true 50 (uploadTo 2 "//a")]
    (fun sm => decide ¬ ((sm.ls { path := "/" }).dirEntries.map DirEntry.name).Nodup) (by decide)
  exact ⟨sm, @Reachable.of_run _ _ plainPlatform _ (@Reachable.create plainPlatform _ [7]) hrun,
    of_decide_eq_true htwice⟩

end StateMachine

end Vosfs.Raft
