import Vosfs.Library.Varint
import Vosfs.Raft.Encoding
import Vosfs.Raft.Persister

/-!
# What the database holds

The persister as it is: under each key are the bytes of a message.  `Persister` stores the messages
themselves, and is refined by it (`bytesRefine`): after the same calls, both load the same hard
state and the same entries, or rather what the nodes make of the entries.

Each call writes the same batch, in bytes and in messages (`Written`), so that there is one disk
that both disks are images of.  Nothing but entries is ever stored under the key of an index.
-/

namespace Vosfs.Raft

open Wire

variable [Runtime]

/-- What the nodes make of an entry that was stored or sent. -/
def EncodedEntry.entry (entry : EncodedEntry) : LogEntry :=
  { term := entry.term, index := entry.index,
    command := EntryCommand.format.parseFromString entry.command }

namespace BytePersister

open Persister (hardStateKey getEntryKey)

/-! ### The calls -/

/-- Stores the hard state as bytes. -/
def saveHardState (disk : Disk (List UInt8)) (hardState : HardState) : Disk (List UInt8) :=
  disk.write (.batch [(hardStateKey, some (HardState.format.serializeAsString hardState))])

/-- Reads it back, and stores a default if there is none. -/
def loadHardState (disk : Disk (List UInt8)) : Except Error (HardState × Disk (List UInt8)) :=
  match disk.get hardStateKey with
  | none => .ok ({}, saveHardState disk {})
  | some payload =>
    match HardState.format.parseFromString payload with
    | none => .error .databaseQueryFailed
    | some hardState => .ok (hardState, disk)

/-- Stores one entry. -/
def saveEntry (disk : Disk (List UInt8)) (entry : EncodedEntry) : Disk (List UInt8) :=
  disk.write (.batch
    [(getEntryKey entry.index, some (EncodedEntry.format.serializeAsString entry))])

/-- Stores entries under their own indexes, in one batch. -/
def saveEntries (disk : Disk (List UInt8)) (entries : List EncodedEntry) : Disk (List UInt8) :=
  disk.write (.batch (entries.map fun entry =>
    (getEntryKey entry.index, some (EncodedEntry.format.serializeAsString entry))))

/-- The loop of `load_entries` from `index` on. -/
def loadFrom (disk : Disk (List UInt8)) : ℕ → ℕ → Except Error (List EncodedEntry)
  | 0, _ => .ok []
  | fuel + 1, index =>
    match disk.get (getEntryKey index) with
    | none => .ok []
    | some payload =>
      match EncodedEntry.format.parseFromString payload with
      | none => .error .databaseQueryFailed
      | some entry => (loadFrom disk fuel (index + 1)).map (entry :: ·)

/-- The entries behind the snapshot, up to a missing key. -/
def loadEntries (disk : Disk (List UInt8)) (lastIncludedIndex : ℕ) :
    Except Error (List EncodedEntry) :=
  loadFrom disk (disk.writtenKeys.length + 1) (lastIncludedIndex + 1)

/-- Deletes the entries from one index to another. -/
def truncateEntries (disk : Disk (List UInt8)) (startIndex endIndex : ℕ) :
    Disk (List UInt8) :=
  disk.write (.batch ((List.range' startIndex (endIndex + 1 - startIndex)).map fun index =>
    (getEntryKey index, none)))

/-- A call of the persister. -/
inductive Call
  | saveHardState (hardState : HardState)
  /-- Stores the default if there is none. -/
  | loadHardState
  | saveEntry (entry : EncodedEntry)
  | saveEntries (entries : List EncodedEntry)
  | truncateEntries (startIndex endIndex : ℕ)

/-- The disk after a call. -/
def step (disk : Disk (List UInt8)) : Call → Disk (List UInt8)
  | .saveHardState hardState => saveHardState disk hardState
  | .loadHardState => ((loadHardState disk).toOption.map Prod.snd).getD disk
  | .saveEntry entry => saveEntry disk entry
  | .saveEntries entries => saveEntries disk entries
  | .truncateEntries startIndex endIndex => truncateEntries disk startIndex endIndex

/-- The same call of the persister that stores messages. -/
def stepMessages (disk : Disk Payload) : Call → Disk Payload
  | .saveHardState hardState => Persister.saveHardState disk hardState
  | .loadHardState => ((Persister.loadHardState disk).toOption.map Prod.snd).getD disk
  | .saveEntry entry => Persister.saveEntries disk [entry.entry]
  | .saveEntries entries => Persister.saveEntries disk (entries.map EncodedEntry.entry)
  | .truncateEntries startIndex endIndex => Persister.truncateEntries disk startIndex endIndex

/-! ### One disk behind both -/

/-- What a value of the database was written from. -/
inductive Written
  | hardState (hardState : HardState)
  | entry (entry : EncodedEntry)

namespace Written

/-- The value as it is stored. -/
def bytes : Written → List UInt8
  | .hardState state => HardState.format.serializeAsString state
  | .entry stored => EncodedEntry.format.serializeAsString stored

/-- The value in the model that stores messages. -/
def payload : Written → Payload
  | .hardState state => .hardState state
  | .entry stored => .entry stored.entry

/-- The numbers fit their types, and the message is not too long. -/
def Fits : Written → Prop
  | .hardState state => HardState.format.inRange state = true ∧
      (HardState.format.internalSerialize state).length ≤ maxSize
  | .entry stored => EncodedEntry.format.inRange stored = true ∧
      (EncodedEntry.format.internalSerialize stored).length ≤ maxSize

end Written

/-- What the call stores fits. -/
def Call.Fits : Call → Prop
  | .saveHardState hardState => Written.Fits (.hardState hardState)
  | .saveEntry entry => Written.Fits (.entry entry)
  | .saveEntries entries => ∀ entry ∈ entries, Written.Fits (.entry entry)
  | .loadHardState | .truncateEntries _ _ => True

/-- What may be put under a key. -/
def Belongs (key : String) : Written → Prop
  | .hardState hardState => key = hardStateKey ∧ Written.Fits (.hardState hardState)
  | .entry entry => (∃ index, key = getEntryKey index) ∧ Written.Fits (.entry entry)

/-- The disk in bytes and the disk in messages come from one disk. -/
structure Represents (disk : Disk (List UInt8)) (messages : Disk Payload)
    (written : Disk Written) : Prop where
  disk : disk = written.map Written.bytes
  messages : messages = written.map Written.payload
  belongs : ∀ ops, DiskWrite.batch ops ∈ written.writes →
    ∀ key value, (key, some value) ∈ ops → Belongs key value

variable {disk : Disk (List UInt8)} {messages : Disk Payload} {written : Disk Written}

theorem Represents.write (h : Represents disk messages written)
    (ops : List (String × Option Written))
    (hops : ∀ key value, (key, some value) ∈ ops → Belongs key value) :
    Represents (disk.write (.batch (ops.map fun op => (op.1, op.2.map Written.bytes))))
      (messages.write (.batch (ops.map fun op => (op.1, op.2.map Written.payload))))
      (written.write (.batch ops)) := by
  refine ⟨?_, ?_, fun ops' hmem => ?_⟩
  · rw [h.disk, Disk.map_write]
    rfl
  · rw [h.messages, Disk.map_write]
    rfl
  · rcases List.mem_append.mp hmem with hold | hnew
    · exact h.belongs ops' hold
    · cases List.mem_singleton.mp hnew
      exact hops

theorem Represents.belongs_of_get (h : Represents disk messages written) {key : String}
    {value : Written} (hget : written.get key = some value) : Belongs key value := by
  obtain ⟨ops, hmem, hput⟩ := Disk.exists_put_of_get hget
  exact h.belongs ops hmem key value hput

/-! ### Loading -/

/-- The hard state that is read is the one that was written. -/
theorem Represents.loadHardState [LawfulRuntime] (h : Represents disk messages written) :
    ∃ hardState disk' messages' written', loadHardState disk = .ok (hardState, disk') ∧
      Persister.loadHardState messages = .ok (hardState, messages') ∧
        Represents disk' messages' written' := by
  have hbytes := Disk.get_map Written.bytes written hardStateKey
  have hmessages := Disk.get_map Written.payload written hardStateKey
  rw [← h.disk] at hbytes
  rw [← h.messages] at hmessages
  unfold BytePersister.loadHardState Persister.loadHardState
  rw [hbytes, hmessages]
  cases hget : written.get hardStateKey with
  | none =>
    have hdefault : Written.Fits (.hardState {}) := ⟨rfl, Nat.zero_le _⟩
    refine ⟨{}, _, _, _, rfl, rfl, h.write [(hardStateKey, some (.hardState {}))] ?_⟩
    intro key value hmem
    cases List.mem_singleton.mp hmem
    exact ⟨rfl, hdefault⟩
  | some value =>
    have hbelongs := h.belongs_of_get hget
    cases value with
    | entry entry =>
      obtain ⟨⟨index, hkey⟩, -⟩ := hbelongs
      exact absurd hkey.symm (Persister.getEntryKey_ne_hardStateKey index)
    | hardState hardState =>
      obtain ⟨-, hrange, hsize⟩ := hbelongs
      refine ⟨hardState, disk, messages, written, ?_, rfl, h⟩
      simp only [Option.map_some, Written.bytes,
        Format.parseFromString_serializeAsString HardState.lawful_format hrange hsize]

theorem Represents.loadFrom [LawfulRuntime] (h : Represents disk messages written)
    (fuel index : ℕ) :
    ∃ entries, loadFrom disk fuel index = .ok entries ∧
      Persister.loadFrom messages fuel index = .ok (entries.map EncodedEntry.entry) := by
  induction fuel generalizing index with
  | zero => exact ⟨[], rfl, rfl⟩
  | succ fuel ih =>
    have hbytes := Disk.get_map Written.bytes written (getEntryKey index)
    have hmessages := Disk.get_map Written.payload written (getEntryKey index)
    rw [← h.disk] at hbytes
    rw [← h.messages] at hmessages
    unfold BytePersister.loadFrom Persister.loadFrom
    rw [hbytes, hmessages]
    cases hget : written.get (getEntryKey index) with
    | none => exact ⟨[], rfl, rfl⟩
    | some value =>
      have hbelongs := h.belongs_of_get hget
      cases value with
      | hardState hardState =>
        exact absurd hbelongs.1 (Persister.getEntryKey_ne_hardStateKey index)
      | entry entry =>
        obtain ⟨-, hrange, hsize⟩ := hbelongs
        obtain ⟨entries, hrest, hrest'⟩ := ih (index + 1)
        refine ⟨entry :: entries, ?_, ?_⟩
        · simp only [Option.map_some, Written.bytes,
            Format.parseFromString_serializeAsString EncodedEntry.lawful_format hrange hsize, hrest]
          rfl
        · simp only [Option.map_some, Written.payload, hrest']
          rfl

/-- The entries that are read are the ones that were written. -/
theorem Represents.loadEntries [LawfulRuntime] (h : Represents disk messages written)
    (index : ℕ) :
    ∃ entries, loadEntries disk index = .ok entries ∧
      Persister.loadEntries messages index = .ok (entries.map EncodedEntry.entry) := by
  have hkeys : disk.writtenKeys = messages.writtenKeys := by
    rw [h.disk, h.messages, Disk.writtenKeys_map, Disk.writtenKeys_map]
  unfold BytePersister.loadEntries Persister.loadEntries
  rw [hkeys]
  exact h.loadFrom _ _

/-! ### Calls -/

theorem Represents.step [LawfulRuntime] (h : Represents disk messages written) {call : Call}
    (hfits : call.Fits) :
    ∃ written', Represents (step disk call) (stepMessages messages call) written' := by
  cases call with
  | saveHardState hardState =>
    refine ⟨_, h.write [(hardStateKey, some (.hardState hardState))] ?_⟩
    intro key value hmem
    cases List.mem_singleton.mp hmem
    exact ⟨rfl, hfits⟩
  | loadHardState =>
    obtain ⟨hardState, disk', messages', written', hload, hload', hrepresents⟩ := h.loadHardState
    unfold BytePersister.step stepMessages
    simp only [hload, hload']
    exact ⟨written', hrepresents⟩
  | saveEntry entry =>
    refine ⟨_, h.write [(getEntryKey entry.index, some (.entry entry))] ?_⟩
    intro key value hmem
    cases List.mem_singleton.mp hmem
    exact ⟨⟨_, rfl⟩, hfits⟩
  | saveEntries entries =>
    have hwrite := h.write
      (entries.map fun entry => (getEntryKey entry.index, some (.entry entry))) ?_
    · rw [List.map_map, List.map_map] at hwrite
      show ∃ written', Represents (saveEntries disk entries)
        (Persister.saveEntries messages (entries.map EncodedEntry.entry)) written'
      unfold Persister.saveEntries
      rw [List.map_map]
      exact ⟨_, hwrite⟩
    · intro key value hmem
      obtain ⟨entry, hentry, heq⟩ := List.mem_map.mp hmem
      cases heq
      exact ⟨⟨_, rfl⟩, hfits entry hentry⟩
  | truncateEntries startIndex endIndex =>
    have hwrite := h.write ((List.range' startIndex (endIndex + 1 - startIndex)).map
      fun index => (getEntryKey index, none)) ?_
    · rw [List.map_map, List.map_map] at hwrite
      exact ⟨_, hwrite⟩
    · intro key value hmem
      obtain ⟨index, -, heq⟩ := List.mem_map.mp hmem
      cases heq

theorem Represents.calls [LawfulRuntime] (h : Represents disk messages written)
    {calls : List Call} (hfits : ∀ call ∈ calls, call.Fits) :
    ∃ written', Represents (calls.foldl BytePersister.step disk)
      (calls.foldl stepMessages messages) written' := by
  induction calls generalizing disk messages written with
  | nil => exact ⟨written, h⟩
  | cons call calls ih =>
    obtain ⟨hfirst, hrest⟩ := List.forall_mem_cons.mp hfits
    obtain ⟨written', hstep⟩ := h.step hfirst
    exact ih hstep hrest

/-- **The bytes refine the messages**: after the same calls, nothing that is loaded is refused, and
it is what the persister that stores messages loads. -/
theorem bytesRefine [LawfulRuntime] {calls : List Call} (hfits : ∀ call ∈ calls, call.Fits) :
    ∃ hardState disk messages,
      loadHardState (calls.foldl step {}) = .ok (hardState, disk) ∧
      Persister.loadHardState (calls.foldl stepMessages {}) = .ok (hardState, messages) ∧
      ∀ index, ∃ entries, loadEntries (calls.foldl step {}) index = .ok entries ∧
        Persister.loadEntries (calls.foldl stepMessages {}) index =
          .ok (entries.map EncodedEntry.entry) := by
  have hempty : Represents {} {} {} := ⟨rfl, rfl, fun ops hmem => absurd hmem List.not_mem_nil⟩
  obtain ⟨written, hrepresents⟩ := hempty.calls hfits
  obtain ⟨hardState, disk, messages, -, hload, hload', -⟩ := hrepresents.loadHardState
  exact ⟨hardState, disk, messages, hload, hload', hrepresents.loadEntries⟩

/-! ### A directory that is stored -/

/-- The command that creates `/a`, in bytes. -/
def storedEntry : EncodedEntry :=
  { term := 1, index := 1, command := [10, 6, 18, 1, 47, 26, 1, 97] }

/-- A node's first calls: it votes, stores an entry and finds a conflict behind it. -/
def storedCalls : List Call :=
  [.loadHardState, .saveHardState { currentTerm := 1, votedFor := some 2 },
    .saveEntries [storedEntry], .truncateEntries 2 2]

omit [Runtime] in
theorem bytesRefine_stored :
    ∃ entries, @loadEntries Varint.base128 (storedCalls.foldl (@step Varint.base128) {}) 0 =
        .ok entries ∧
      Persister.loadEntries (storedCalls.foldl (@stepMessages Varint.base128) {}) 0 =
        .ok (entries.map (@EncodedEntry.entry Varint.base128)) ∧
      entries.map (fun entry => (@EncodedEntry.entry Varint.base128 entry).command) =
        [some (.mkdir { parentPath := "/", name := "a" })] := by
  have hfits : ∀ call ∈ storedCalls, @Call.Fits Varint.base128 call := by
    unfold storedCalls
    rw [List.forall_mem_cons, List.forall_mem_cons, List.forall_mem_cons,
      List.forall_mem_singleton]
    refine ⟨trivial, ⟨by decide +kernel, by decide +kernel⟩, fun entry hmem => ?_, trivial⟩
    cases List.mem_singleton.mp hmem
    exact ⟨by decide +kernel, by decide +kernel⟩
  obtain ⟨-, -, -, -, -, hload⟩ := @bytesRefine Varint.base128 Varint.lawful_base128 _ hfits
  obtain ⟨entries, hentries, hmessages⟩ := hload 0
  have hstored : @loadEntries Varint.base128 (storedCalls.foldl (@step Varint.base128) {}) 0 =
      .ok [storedEntry] := by
    decide +kernel
  rw [hstored] at hentries
  cases hentries
  exact ⟨_, hstored, hmessages, by decide +kernel⟩

end BytePersister

end Vosfs.Raft
