import Vosfs.Library.Run
import Vosfs.Raft.HardStateSafety

/-!
# The persister as a log store

A persister that is used as `RaftNode` uses it is a list of entries behind `base`, and a hard
state (`faithfulLogStore`).  `load_entries` finds the end of the list by a missing key, so what
carries the proof is that no key is left behind the end: a suffix is deleted up to the last
index, and a batch goes on right there (`LogStore.Faithful`).

The loop of `load_entries` is given once more with its own 64-bit index and without a bound on
its rounds (`loadLoop`), to say that it ends.
-/

namespace Vosfs.Raft.Persister

/-- A call of the persister. -/
inductive Call
  | saveEntries (entries : List LogEntry)
  | truncateEntries (startIndex : ℕ)
  | saveHardState (hardState : HardState)
  deriving DecidableEq, Repr

/-- The database, and what it stands for. -/
structure LogStore where
  disk : Disk Payload
  entries : List LogEntry
  hardState : Option HardState := none

namespace LogStore

/-- The index of the last entry. -/
def lastIndex (base : ℕ) (s : LogStore) : ℕ :=
  base + s.entries.length

/-- What the call does to the database, and to what it stands for. -/
def step (base : ℕ) (s : LogStore) : Call → Option LogStore
  | .saveEntries more =>
    some { s with disk := saveEntries s.disk more, entries := s.entries ++ more }
  | .truncateEntries startIndex =>
    some { s with
      disk := truncateEntries s.disk startIndex (s.lastIndex base)
      entries := s.entries.take (startIndex - base - 1) }
  | .saveHardState hardState =>
    some { s with disk := saveHardState s.disk hardState, hardState := some hardState }

/-- A batch goes on behind the last index, and a suffix starts in the log. -/
def Allowed (base : ℕ) (s : LogStore) : Call → Prop
  | .saveEntries more =>
    more.map LogEntry.index = List.range' (s.lastIndex base + 1) more.length ∧
      s.lastIndex base + more.length < 2 ^ 64 - 1
  | .truncateEntries startIndex => base < startIndex ∧ startIndex ≤ s.lastIndex base
  | .saveHardState _ => True

instance {base : ℕ} {s : LogStore} : ∀ {call : Call}, Decidable (s.Allowed base call)
  | .saveEntries _ | .truncateEntries _ => inferInstanceAs (Decidable (_ ∧ _))
  | .saveHardState _ => inferInstanceAs (Decidable True)

/-- The database is the log behind `base`, with nothing behind its end, and the hard state. -/
structure Faithful (base : ℕ) (s : LogStore) : Prop where
  holds : Holds s.disk base s.entries
  indexes : s.entries.map LogEntry.index = List.range' (base + 1) s.entries.length
  bounded : s.lastIndex base < 2 ^ 64 - 1
  hardState : s.disk.get hardStateKey = s.hardState.map Payload.hardState

end LogStore

variable {base : ℕ} {s s' : LogStore}

/-! ## The loop -/

/-- The loop of `load_entries`.  `none`: it goes on after this many rounds. -/
def loadLoop (disk : Disk Payload) : ℕ → ℕ → Option (Except Error (List LogEntry))
  | 0, _ => none
  | rounds + 1, index =>
    match disk.get (getEntryKey index) with
    | none => some (.ok [])
    | some (.hardState _) => some (.error .databaseQueryFailed)
    | some (.entry entry) =>
      (loadLoop disk rounds (u64 (index + 1))).map (·.map (entry :: ·))

/-- It ends at the missing key, and no index wraps around before. -/
theorem loadLoop_of_holds {disk : Disk Payload} {entries : List LogEntry} {rounds : ℕ}
    (hholds : Holds disk base entries) (hbounded : base + entries.length < 2 ^ 64 - 1)
    (hrounds : entries.length < rounds) :
    loadLoop disk rounds (u64 (base + 1)) = some (.ok entries) := by
  have hindex : u64 (base + 1) = base + 1 := Nat.mod_eq_of_lt (by omega)
  rw [hindex]
  induction rounds generalizing base entries with
  | zero => omega
  | succ rounds ih =>
    have hfirst := hholds 0
    unfold loadLoop
    cases entries with
    | nil =>
      rw [Nat.add_zero] at hfirst
      rw [hfirst]
      rfl
    | cons entry rest =>
      rw [Nat.add_zero] at hfirst
      rw [List.length_cons] at hbounded hrounds
      have hnext : u64 (base + 1 + 1) = base + 1 + 1 := Nat.mod_eq_of_lt (by omega)
      have hrest : loadLoop disk rounds (base + 1 + 1) = some (.ok rest) :=
        ih (hholds.drop 1) (by omega) (by omega) hnext
      rw [hfirst, hnext]
      simp only [List.getElem?_cons_zero, Option.map_some, hrest]
      rfl

/-! ## Calls -/

namespace LogStore

theorem get_getEntryKey_saveHardState (disk : Disk Payload) (hardState : HardState) (index : ℕ) :
    (Persister.saveHardState disk hardState).get (getEntryKey index) =
      disk.get (getEntryKey index) := by
  unfold Persister.saveHardState
  rw [Disk.get_write_batch]
  refine Disk.applyOps_of_not_mem _ fun hmem => ?_
  exact getEntryKey_ne_hardStateKey index (List.mem_singleton.mp hmem)

/-- A batch goes on right behind the end. -/
theorem Faithful.saveEntries (h : Faithful base s) {more : List LogEntry}
    (hindexes : more.map LogEntry.index = List.range' (s.lastIndex base + 1) more.length)
    (hbounded : s.lastIndex base + more.length < 2 ^ 64 - 1) :
    Faithful base { s with
      disk := Persister.saveEntries s.disk more, entries := s.entries ++ more } := by
  refine ⟨h.holds.saveEntries fun k entry hentry => ?_, ?_, ?_, ?_⟩
  · have hk := congrArg (·[k]?) hindexes
    simp only [List.getElem?_map, hentry, Option.map_some] at hk
    obtain ⟨hlt, -⟩ := List.getElem?_eq_some_iff.mp hentry
    rw [List.getElem?_range' hlt] at hk
    have hindex := Option.some.inj hk
    unfold lastIndex at hindex
    omega
  · have hnext : s.lastIndex base + 1 = base + 1 + s.entries.length := by
      unfold lastIndex
      omega
    rw [List.map_append, h.indexes, hindexes, List.length_append, hnext, List.range'_append_1]
  · unfold lastIndex at hbounded ⊢
    rw [List.length_append]
    omega
  · rw [RaftNode.get_of_wrote_entry (RaftNode.entryWrite_saveEntries s.disk more), h.hardState]

/-- A suffix is deleted up to the last index. -/
theorem Faithful.truncateEntries (h : Faithful base s) {startIndex : ℕ} (hafter : base < startIndex)
    (hlast : startIndex ≤ s.lastIndex base) :
    Faithful base { s with
      disk := Persister.truncateEntries s.disk startIndex (s.lastIndex base)
      entries := s.entries.take (startIndex - base - 1) } := by
  have hstart : base + (startIndex - base - 1) + 1 = startIndex := by omega
  have hholds := h.holds.truncateEntries (startIndex - base - 1)
  rw [hstart] at hholds
  refine ⟨hholds, ?_, ?_, ?_⟩
  · have hkept : startIndex - base - 1 ≤ s.entries.length := by
      unfold lastIndex at hlast
      omega
    rw [List.map_take, h.indexes, List.length_take, List.take_range'_of_length_ge hkept,
      min_eq_left hkept]
  · have hbounded := h.bounded
    unfold lastIndex at hbounded ⊢
    rw [List.length_take]
    omega
  · rw [RaftNode.get_of_wrote_entry
      (@RaftNode.entryWrite_truncateEntries [] s.disk startIndex (s.lastIndex base)), h.hardState]

theorem Faithful.saveHardState (h : Faithful base s) (hardState : HardState) :
    Faithful base { s with
      disk := Persister.saveHardState s.disk hardState, hardState := some hardState } :=
  ⟨h.holds.of_get (get_getEntryKey_saveHardState _ _), h.indexes, h.bounded,
    RaftNode.get_saveHardState _ _⟩

theorem Faithful.step (h : Faithful base s) {call : Call} (hallowed : s.Allowed base call)
    (hstep : s.step base call = some s') : Faithful base s' := by
  cases call with
  | saveEntries more =>
    cases hstep
    exact h.saveEntries hallowed.1 hallowed.2
  | truncateEntries startIndex =>
    cases hstep
    exact h.truncateEntries hallowed.1 hallowed.2
  | saveHardState hardState =>
    cases hstep
    exact h.saveHardState hardState

theorem Faithful.run (h : Faithful base s) (hrun : Run (LogStore.step base) (Allowed base) s s') :
    Faithful base s' :=
  hrun.invariant (Faithful base) h fun hfaithful hallowed hstep => hfaithful.step hallowed hstep

/-! ## What is loaded -/

theorem Faithful.loadEntries (h : Faithful base s) {index : ℕ} (hbase : base ≤ index)
    (hlast : index ≤ s.lastIndex base) :
    Persister.loadEntries s.disk index = .ok (s.entries.drop (index - base)) ∧
      ∀ rounds > s.entries.length,
        loadLoop s.disk rounds (u64 (index + 1)) = some (.ok (s.entries.drop (index - base))) := by
  obtain ⟨n, rfl⟩ := Nat.exists_eq_add_of_le hbase
  have hbounded := h.bounded
  unfold lastIndex at hbounded hlast
  rw [Nat.add_sub_cancel_left]
  refine ⟨(h.holds.drop n).loadEntries, fun rounds hrounds => ?_⟩
  exact loadLoop_of_holds (h.holds.drop n) (by rw [List.length_drop]; omega)
    (by rw [List.length_drop]; omega)

theorem Faithful.loadHardState (h : Faithful base s) :
    ∃ disk, Persister.loadHardState s.disk = .ok (s.hardState.getD {}, disk) := by
  unfold Persister.loadHardState
  rw [h.hardState]
  cases s.hardState with
  | none => exact ⟨_, rfl⟩
  | some hardState => exact ⟨_, rfl⟩

/-- **The persister is a faithful log store**: after any calls, the loop of `load_entries` ends
with the entries behind its argument in index order, and the hard state is the last one saved,
or the default.  The keys are distinct. -/
theorem faithfulLogStore (h : Faithful base s)
    (hrun : Run (LogStore.step base) (Allowed base) s s') :
    Persister.loadEntries s'.disk base = .ok s'.entries ∧
      s'.entries.map LogEntry.index = List.range' (base + 1) s'.entries.length ∧
      (∀ index, base ≤ index → index ≤ s'.lastIndex base →
        Persister.loadEntries s'.disk index = .ok (s'.entries.drop (index - base)) ∧
          ∀ rounds > s'.entries.length, loadLoop s'.disk rounds (u64 (index + 1)) =
            some (.ok (s'.entries.drop (index - base)))) ∧
      (∃ disk, Persister.loadHardState s'.disk = .ok (s'.hardState.getD {}, disk)) ∧
      Function.Injective getEntryKey ∧ ∀ index, getEntryKey index ≠ hardStateKey :=
  have hfaithful := h.run hrun
  ⟨hfaithful.holds.loadEntries, hfaithful.indexes,
    fun _ hbase hlast => hfaithful.loadEntries hbase hlast, hfaithful.loadHardState,
    getEntryKey_injective, getEntryKey_ne_hardStateKey⟩

/-- Entries behind 5 are stored, the last of them is replaced, and a hard state is saved. -/
def replaceLast : List Call :=
  [.saveEntries [{ term := 1, index := 6 }, { term := 1, index := 7 }],
    .truncateEntries 7, .saveEntries [{ term := 2, index := 7 }],
    .saveHardState { currentTerm := 2 }]

theorem faithfulLogStore_replaced :
    ∃ s : LogStore, Run (LogStore.step 5) (Allowed 5) ⟨{}, [], none⟩ s ∧
      Persister.loadEntries s.disk 5 =
        .ok [{ term := 1, index := 6 }, { term := 2, index := 7 }] := by
  obtain ⟨s, hrun, hentries⟩ := Run.exists_of_exec (LogStore.step 5) (Allowed 5) ⟨{}, [], none⟩
    replaceLast (fun s => s.entries = [{ term := 1, index := 6 }, { term := 2, index := 7 }])
    (by decide)
  have hstart : Faithful 5 ⟨{}, [], none⟩ := ⟨fun _ => rfl, rfl, by decide, rfl⟩
  refine ⟨s, hrun, ?_⟩
  rw [(faithfulLogStore hstart hrun).1, of_decide_eq_true hentries]

end LogStore

end Vosfs.Raft.Persister
