import Vosfs.Library.Decimal
import Vosfs.Library.Disk
import Vosfs.Raft.Log

/-!
# The persister

Hard state and entries in the database, one entry per key `log<index>`.  Every
write is synchronous and a batch is atomic; a write that fails aborts the process
and is not modelled, as the database is assumed to work.

`load_entries` reads until the first missing key.  `loadEntries_eq_ok_iff` says what
it returns without mentioning how far the loop runs.
-/

namespace Vosfs.Raft

/-- What is stored under a key, before serialization. -/
inductive Payload
  | hardState (hardState : HardState)
  | entry (entry : LogEntry)
  deriving DecidableEq, Repr

namespace Persister

/-- The key of the hard state. -/
def hardStateKey : String :=
  "hard_state"

/-- The key of the entry at an index. -/
def getEntryKey (index : ℕ) : String :=
  "log" ++ toString index

/-- Replaces the stored hard state. -/
def saveHardState (disk : Disk Payload) (hardState : HardState) : Disk Payload :=
  disk.write (.batch [(hardStateKey, some (.hardState hardState))])

/-- The stored hard state; the default is stored if there is none. -/
def loadHardState (disk : Disk Payload) : Except Error (HardState × Disk Payload) :=
  match disk.get hardStateKey with
  | none => .ok ({}, saveHardState disk {})
  | some (.hardState hardState) => .ok (hardState, disk)
  | some (.entry _) => .error .databaseQueryFailed

/-- Stores entries under their own indexes, in one batch. -/
def saveEntries (disk : Disk Payload) (entries : List LogEntry) : Disk Payload :=
  disk.write (.batch (entries.map fun entry => (getEntryKey entry.index, some (.entry entry))))

/-- The loop of `load_entries` from `index` on. -/
def loadFrom (disk : Disk Payload) : ℕ → ℕ → Except Error (List LogEntry)
  | 0, _ => .ok []
  | fuel + 1, index =>
    match disk.get (getEntryKey index) with
    | none => .ok []
    | some (.hardState _) => .error .databaseQueryFailed
    | some (.entry entry) => (loadFrom disk fuel (index + 1)).map (entry :: ·)

/-- The loop ends at the first missing key, after at most as many rounds as there
are keys. -/
def loadEntries (disk : Disk Payload) (lastIncludedIndex : ℕ) : Except Error (List LogEntry) :=
  loadFrom disk (disk.writtenKeys.length + 1) (lastIncludedIndex + 1)

/-- Deletes the entries from one index to another, in one batch. -/
def truncateEntries (disk : Disk Payload) (startIndex endIndex : ℕ) : Disk Payload :=
  disk.write (.batch ((List.range' startIndex (endIndex + 1 - startIndex)).map fun index =>
    (getEntryKey index, none)))

variable {disk : Disk Payload} {base : ℕ} {entries : List LogEntry}

/-! ## Keys -/

theorem getEntryKey_injective : Function.Injective getEntryKey := by
  intro m n heq
  exact toString_injective ((String.append_right_inj _).mp heq)

theorem getEntryKey_ne_hardStateKey (index : ℕ) : getEntryKey index ≠ hardStateKey := by
  intro heq
  have hhead := congrArg (fun s => s.toList.head?) heq
  simp [getEntryKey, hardStateKey] at hhead

/-! ## Loading -/

/-- Past `base` exactly `entries` are stored, one per index. -/
def Holds (disk : Disk Payload) (base : ℕ) (entries : List LogEntry) : Prop :=
  ∀ k, disk.get (getEntryKey (base + 1 + k)) = entries[k]?.map Payload.entry

theorem loadFrom_spec {fuel : ℕ} {index : ℕ} (hload : loadFrom disk fuel index = .ok entries) :
    (∀ k e, entries[k]? = some e → disk.get (getEntryKey (index + k)) = some (.entry e)) ∧
      (entries.length = fuel ∨ disk.get (getEntryKey (index + entries.length)) = none) := by
  induction fuel generalizing index entries with
  | zero =>
    cases hload
    simp
  | succ fuel ih =>
    unfold loadFrom at hload
    split at hload
    next hnone =>
      cases hload
      exact ⟨by simp, Or.inr hnone⟩
    next => cases hload
    next e hsome =>
      cases hrest : loadFrom disk fuel (index + 1) with
      | error err => rw [hrest] at hload; cases hload
      | ok rest =>
        rw [hrest] at hload
        cases hload
        obtain ⟨hstored, hstop⟩ := ih hrest
        constructor
        · intro k e' he'
          cases k with
          | zero => rw [List.getElem?_cons_zero] at he'; cases he'; exact hsome
          | succ k =>
            rw [← Nat.add_assoc, Nat.add_right_comm]
            exact hstored k e' he'
        · rw [List.length_cons, ← Nat.add_assoc, Nat.add_right_comm]
          exact hstop.imp_left fun h => by rw [h]

theorem loadFrom_of_holds {fuel : ℕ} {index : ℕ}
    (hholds : ∀ k < entries.length, disk.get (getEntryKey (index + k)) = entries[k]?.map .entry)
    (hstop : disk.get (getEntryKey (index + entries.length)) = none)
    (hfuel : entries.length < fuel) : loadFrom disk fuel index = .ok entries := by
  induction fuel generalizing index entries with
  | zero => omega
  | succ fuel ih =>
    unfold loadFrom
    cases entries with
    | nil =>
      rw [List.length_nil, Nat.add_zero] at hstop
      rw [hstop]
    | cons e rest =>
      have hhead := hholds 0 (Nat.succ_pos _)
      rw [Nat.add_zero, List.getElem?_cons_zero] at hhead
      rw [hhead]
      simp only [Option.map_some]
      have hrest : loadFrom disk fuel (index + 1) = .ok rest := by
        apply ih
        · intro k hk
          have := hholds (k + 1) (Nat.succ_lt_succ hk)
          rwa [← Nat.add_assoc, Nat.add_right_comm, List.getElem?_cons_succ] at this
        · rwa [List.length_cons, ← Nat.add_assoc, Nat.add_right_comm] at hstop
        · exact Nat.lt_of_succ_lt_succ hfuel
      rw [hrest]
      rfl

/-- `load_entries` returns what is stored before the first missing key. -/
theorem loadEntries_eq_ok_iff :
    loadEntries disk base = .ok entries ↔
      (∀ k < entries.length,
        disk.get (getEntryKey (base + 1 + k)) = entries[k]?.map Payload.entry) ∧
      disk.get (getEntryKey (base + 1 + entries.length)) = none := by
  have hinj : Function.Injective fun k => getEntryKey (base + 1 + k) :=
    fun m n heq => Nat.add_left_cancel (getEntryKey_injective heq)
  obtain ⟨free, hfree, hnone⟩ := disk.exists_get_eq_none hinj
  constructor
  · intro hload
    obtain ⟨hstored, hstop⟩ := loadFrom_spec hload
    refine ⟨fun k hk => ?_, hstop.resolve_left fun hlen => ?_⟩
    · rw [hstored k _ (List.getElem?_eq_getElem hk), List.getElem?_eq_getElem hk]
      rfl
    · have := hstored free _ (List.getElem?_eq_getElem (by omega))
      rw [hnone] at this
      cases this
  · rintro ⟨hstored, hstop⟩
    refine loadFrom_of_holds hstored hstop ?_
    by_contra hlong
    have := hstored free (by omega)
    rw [hnone, List.getElem?_eq_getElem (by omega)] at this
    cases this

theorem Holds.loadEntries (hholds : Holds disk base entries) :
    loadEntries disk base = .ok entries := by
  refine loadEntries_eq_ok_iff.mpr ⟨fun k _ => hholds k, ?_⟩
  rw [hholds, List.getElem?_eq_none (Nat.le_refl _)]
  rfl

/-! ## Writing entries -/

namespace Holds

theorem of_get {disk' : Disk Payload} (hholds : Holds disk base entries)
    (hget : ∀ index, disk'.get (getEntryKey index) = disk.get (getEntryKey index)) :
    Holds disk' base entries :=
  fun k => (hget _).trans (hholds k)

/-- Past a later index, the rest is stored. -/
theorem drop (hholds : Holds disk base entries) (n : ℕ) :
    Holds disk (base + n) (entries.drop n) := by
  intro k
  rw [List.getElem?_drop, ← hholds]
  congr 2
  omega

/-- What is past the last index kept is deleted. -/
theorem truncateEntries (hholds : Holds disk base entries) (n : ℕ) :
    Holds (truncateEntries disk (base + n + 1) (base + entries.length)) base
      (entries.take n) := by
  intro k
  have hkeys : (List.range' (base + n + 1) (base + entries.length + 1 - (base + n + 1))).map
      (fun index => (getEntryKey index, (none : Option Payload))) =
      ((List.range' (base + n + 1) (base + entries.length + 1 - (base + n + 1))).map
        getEntryKey).map fun key => (key, none) := by
    rw [List.map_map]
    rfl
  have hmem : getEntryKey (base + 1 + k) ∈ (List.range' (base + n + 1)
      (base + entries.length + 1 - (base + n + 1))).map getEntryKey ↔
        n ≤ k ∧ k < entries.length := by
    rw [List.mem_map_of_injective getEntryKey_injective, List.mem_range'_1]
    omega
  unfold Persister.truncateEntries
  rw [Disk.get_write_batch, hkeys]
  by_cases hdeleted : n ≤ k ∧ k < entries.length
  · rw [Disk.applyOps_delete _ (hmem.mpr hdeleted),
      List.getElem?_eq_none (by rw [List.length_take]; omega)]
    rfl
  · rw [Disk.applyOps_of_not_mem, hholds]
    · by_cases hk : k < n
      · rw [List.getElem?_take_of_lt hk]
      · rw [List.getElem?_eq_none (by omega), List.getElem?_eq_none (by rw [List.length_take]; omega)]
    · rw [List.map_map]
      exact fun h => hdeleted (hmem.mp (by simpa [Function.comp_def] using h))

/-- Entries that go on where the stored ones end are stored behind them. -/
theorem saveEntries (hholds : Holds disk base entries) {more : List LogEntry}
    (hindex : ∀ k entry, more[k]? = some entry → entry.index = base + 1 + entries.length + k) :
    Holds (saveEntries disk more) base (entries ++ more) := by
  have hkey : ∀ k (hk : k < more.length),
      getEntryKey more[k].index = getEntryKey (base + 1 + (entries.length + k)) := by
    intro k hk
    rw [hindex k _ (List.getElem?_eq_getElem hk), Nat.add_assoc]
  intro k
  unfold Persister.saveEntries
  rw [Disk.get_write_batch]
  by_cases hk : entries.length ≤ k ∧ k < entries.length + more.length
  · obtain ⟨j, rfl⟩ : ∃ j, k = entries.length + j := ⟨k - entries.length, by omega⟩
    have hj : j < more.length := by omega
    have hnodup : ((more.map fun entry =>
        (getEntryKey entry.index, some (Payload.entry entry))).map Prod.fst).Nodup := by
      rw [List.map_map, List.nodup_iff_injective_getElem]
      intro a b heq
      simp only [List.getElem_map, Function.comp_apply] at heq
      have ha : a.1 < more.length := by simpa using a.2
      have hb : b.1 < more.length := by simpa using b.2
      have hab := getEntryKey_injective heq
      rw [hindex _ _ (List.getElem?_eq_getElem ha), hindex _ _ (List.getElem?_eq_getElem hb)] at hab
      exact Fin.ext (by omega)
    have hop : (getEntryKey more[j].index, some (Payload.entry more[j])) ∈
        more.map fun entry => (getEntryKey entry.index, some (Payload.entry entry)) :=
      List.mem_map_of_mem (List.getElem_mem hj)
    rw [← hkey j hj, Disk.applyOps_of_mem _ hnodup hop, List.getElem?_append_right (by omega)]
    simp [hj]
  · rw [Disk.applyOps_of_not_mem, hholds]
    · by_cases hlt : k < entries.length
      · rw [List.getElem?_append_left hlt]
      · rw [List.getElem?_eq_none (by omega), List.getElem?_eq_none
          (by rw [List.length_append]; omega)]
    · intro hmem
      rw [List.map_map] at hmem
      obtain ⟨entry, hentry, heq⟩ := List.mem_map.mp hmem
      obtain ⟨j, hj, rfl⟩ := List.getElem_of_mem hentry
      have := getEntryKey_injective ((hkey j hj).symm.trans heq)
      omega

end Holds

end Persister

end Vosfs.Raft
