import Mathlib.Data.Finset.Card
import Mathlib.Data.List.Basic
import Mathlib.Logic.Function.Basic

/-!
# A durable disk

A key-value database with atomic batches beside plain files, given by the list of
all writes so far, oldest first.  A write is on the disk when it returns, so a
crash loses exactly the writes that had not been issued: what it leaves is a
prefix of the list.
-/

namespace Vosfs

open Function

/-- A write to the database or to a file. -/
inductive DiskWrite (Payload : Type*)
  | batch (ops : List (String × Option Payload))
  | openTruncated (path : String)
  | writeAll (path : String) (data : List UInt8)
  | rename (source target : String)

/-- All writes so far, oldest first. -/
structure Disk (Payload : Type*) where
  writes : List (DiskWrite Payload) := []

namespace Disk

variable {Payload : Type*}

/-- The disk after one more write. -/
def write (disk : Disk Payload) (w : DiskWrite Payload) : Disk Payload :=
  ⟨disk.writes ++ [w]⟩

/-- Puts and deletions of one batch, in order. -/
def applyOps (db : String → Option Payload) (ops : List (String × Option Payload)) :
    String → Option Payload :=
  ops.foldl (fun db op => update db op.1 op.2) db

/-- What a write does to the database. -/
def applyToDb (db : String → Option Payload) : DiskWrite Payload → String → Option Payload
  | .batch ops => applyOps db ops
  | _ => db

/-- What a write does to the files. -/
def applyToFiles (files : String → Option (List UInt8)) :
    DiskWrite Payload → String → Option (List UInt8)
  | .openTruncated path => update files path (some [])
  | .writeAll path data => update files path (some ((files path).getD [] ++ data))
  | .rename source target => update (update files target (files source)) source none
  | .batch _ => files

/-- The value stored under a key. -/
def get (disk : Disk Payload) : String → Option Payload :=
  disk.writes.foldl applyToDb fun _ => none

/-- The contents of a file. -/
def file (disk : Disk Payload) : String → Option (List UInt8) :=
  disk.writes.foldl applyToFiles fun _ => none

/-- The keys that occur in a batch. -/
def writtenKeys (disk : Disk Payload) : List String :=
  disk.writes.flatMap fun
    | .batch ops => ops.map Prod.fst
    | _ => []

variable {disk : Disk Payload} {key : String}

theorem get_write (w : DiskWrite Payload) : (disk.write w).get = applyToDb disk.get w := by
  simp [get, write, List.foldl_append]

@[simp] theorem get_write_batch (ops : List (String × Option Payload)) :
    (disk.write (.batch ops)).get = applyOps disk.get ops :=
  get_write _

@[simp] theorem get_write_openTruncated (path : String) :
    (disk.write (.openTruncated path)).get = disk.get :=
  get_write _

@[simp] theorem get_write_writeAll (path : String) (data : List UInt8) :
    (disk.write (.writeAll path data)).get = disk.get :=
  get_write _

@[simp] theorem get_write_rename (source target : String) :
    (disk.write (.rename source target)).get = disk.get :=
  get_write _

theorem file_write (w : DiskWrite Payload) : (disk.write w).file = applyToFiles disk.file w := by
  simp [file, write, List.foldl_append]

@[simp] theorem file_write_batch (ops : List (String × Option Payload)) :
    (disk.write (.batch ops)).file = disk.file :=
  file_write _

@[simp] theorem file_write_openTruncated (path : String) :
    (disk.write (.openTruncated path)).file = update disk.file path (some []) :=
  file_write _

@[simp] theorem file_write_writeAll (path : String) (data : List UInt8) :
    (disk.write (.writeAll path data)).file =
      update disk.file path (some ((disk.file path).getD [] ++ data)) :=
  file_write _

@[simp] theorem file_write_rename (source target : String) :
    (disk.write (.rename source target)).file =
      update (update disk.file target (disk.file source)) source none :=
  file_write _

/-- A batch leaves the keys alone that it does not name. -/
theorem applyOps_of_not_mem (db : String → Option Payload) {ops : List (String × Option Payload)}
    (hkey : key ∉ ops.map Prod.fst) : applyOps db ops key = db key := by
  induction ops generalizing db with
  | nil => rfl
  | cons op ops ih =>
    rw [List.map_cons, List.mem_cons, not_or] at hkey
    exact (ih _ hkey.2).trans (update_of_ne hkey.1 _ _)

/-- The last operation of a batch on a key decides. -/
theorem applyOps_concat (db : String → Option Payload) (ops : List (String × Option Payload))
    (op : String × Option Payload) :
    applyOps db (ops ++ [op]) = update (applyOps db ops) op.1 op.2 := by
  simp [applyOps, List.foldl_append]

theorem applyOps_of_mem (db : String → Option Payload) {ops : List (String × Option Payload)}
    (hnodup : (ops.map Prod.fst).Nodup) {op : String × Option Payload} (hop : op ∈ ops) :
    applyOps db ops op.1 = op.2 := by
  induction ops generalizing db with
  | nil => cases hop
  | cons first ops ih =>
    rw [List.map_cons, List.nodup_cons] at hnodup
    rcases List.mem_cons.mp hop with rfl | hop
    · exact (applyOps_of_not_mem _ hnodup.1).trans (update_self ..)
    · exact ih _ hnodup.2 hop

/-- Nothing is left under a deleted key. -/
theorem applyOps_delete (db : String → Option Payload) {keys : List String} (hkey : key ∈ keys) :
    applyOps db (keys.map fun key => (key, none)) key = none := by
  induction keys using List.reverseRecOn with
  | nil => cases hkey
  | append_singleton keys last ih =>
    rw [List.map_append, List.map_singleton, applyOps_concat, update_apply]
    split
    next => rfl
    next hne =>
      rw [List.mem_append, List.mem_singleton] at hkey
      exact ih (hkey.resolve_right hne)

theorem mem_writtenKeys_of_get (hget : disk.get key ≠ none) : key ∈ disk.writtenKeys := by
  obtain ⟨writes⟩ := disk
  induction writes using List.reverseRecOn with
  | nil => exact absurd rfl hget
  | append_singleton writes w ih =>
    change (Disk.write ⟨writes⟩ w).get key ≠ none at hget
    rw [writtenKeys, List.flatMap_append, List.mem_append]
    cases w with
    | batch ops =>
      by_cases hkey : key ∈ ops.map Prod.fst
      · exact Or.inr (by simpa using hkey)
      · rw [get_write_batch, applyOps_of_not_mem _ hkey] at hget
        exact Or.inl (ih hget)
    | openTruncated path => exact Or.inl (ih (by simpa using hget))
    | writeAll path data => exact Or.inl (ih (by simpa using hget))
    | rename source target => exact Or.inl (ih (by simpa using hget))

/-- Of distinct keys `keyOf 0, keyOf 1, …` one not above the number of writes is unused. -/
theorem exists_get_eq_none (disk : Disk Payload) {keyOf : ℕ → String} (hinj : Injective keyOf) :
    ∃ i ≤ disk.writtenKeys.length, disk.get (keyOf i) = none := by
  by_contra hall
  simp only [not_exists, not_and] at hall
  have hsub : (Finset.range (disk.writtenKeys.length + 1)).image keyOf ⊆
      disk.writtenKeys.toFinset := by
    intro key hkey
    obtain ⟨i, hi, rfl⟩ := Finset.mem_image.mp hkey
    rw [Finset.mem_range, Nat.lt_succ_iff] at hi
    exact List.mem_toFinset.mpr (mem_writtenKeys_of_get (hall i hi))
  have hcard := Finset.card_le_card hsub
  rw [Finset.card_image_of_injective _ hinj, Finset.card_range] at hcard
  have := List.toFinset_card_le disk.writtenKeys
  omega

/-! ## Writing more -/

/-- `after` is `before` with more writes, all of one kind. -/
def Wrote (kind : DiskWrite Payload → Prop) (before after : Disk Payload) : Prop :=
  ∃ writes, after.writes = before.writes ++ writes ∧ ∀ w ∈ writes, kind w

namespace Wrote

variable {kind kind' : DiskWrite Payload → Prop} {before after later : Disk Payload}

theorem refl : Wrote kind before before :=
  ⟨[], (List.append_nil _).symm, by simp⟩

theorem of_eq (heq : after = before) : Wrote kind before after :=
  heq ▸ refl

theorem trans (hfirst : Wrote kind before after) (hsecond : Wrote kind after later) :
    Wrote kind before later := by
  obtain ⟨writes, hwrites, hkind⟩ := hfirst
  obtain ⟨more, hmore, hkind'⟩ := hsecond
  refine ⟨writes ++ more, by rw [hmore, hwrites, List.append_assoc], fun w hw => ?_⟩
  exact (List.mem_append.mp hw).elim (hkind w) (hkind' w)

theorem write {w : DiskWrite Payload} (hw : kind w) : Wrote kind before (before.write w) :=
  ⟨[w], rfl, by simpa using hw⟩

theorem mono (himp : ∀ w, kind w → kind' w) (hwrote : Wrote kind before after) :
    Wrote kind' before after := by
  obtain ⟨writes, hwrites, hkind⟩ := hwrote
  exact ⟨writes, hwrites, fun w hw => himp w (hkind w hw)⟩

/-- What every write of the kind keeps is kept. -/
theorem invariant (Inv : Disk Payload → Prop) (hwrote : Wrote kind before after)
    (hbefore : Inv before)
    (hkeep : ∀ {disk w}, Inv disk → kind w → Inv (disk.write w)) : Inv after := by
  obtain ⟨before⟩ := before
  obtain ⟨after⟩ := after
  obtain ⟨writes, rfl, hkind⟩ := hwrote
  induction writes using List.reverseRecOn with
  | nil => simpa using hbefore
  | append_singleton writes w ih =>
    have hprefix := ih fun w' hw' => hkind w' (List.mem_append_left _ hw')
    rw [← List.append_assoc]
    exact hkeep hprefix (hkind w (by simp))

/-- A crash leaves a part of the writes. -/
theorem cut (hwrote : Wrote kind before after) {n : ℕ} (hn : before.writes.length ≤ n) :
    Wrote kind before ⟨after.writes.take n⟩ := by
  obtain ⟨writes, hwrites, hkind⟩ := hwrote
  refine ⟨writes.take (n - before.writes.length), ?_,
    fun w hw => hkind w (List.mem_of_mem_take hw)⟩
  rw [hwrites, List.take_append, List.take_of_length_le hn]

end Wrote

/-- `Inv` holds from `before` to `after`, between any two writes. -/
def Throughout (Inv : Disk Payload → Prop) (before after : Disk Payload) : Prop :=
  ∃ writes, after.writes = before.writes ++ writes ∧
    ∀ k, Inv ⟨before.writes ++ writes.take k⟩

namespace Throughout

variable {Inv : Disk Payload → Prop} {before after later : Disk Payload}

theorem refl (hbefore : Inv before) : Throughout Inv before before :=
  ⟨[], (List.append_nil _).symm, fun k => by simpa using hbefore⟩

theorem write {w : DiskWrite Payload} (hbefore : Inv before) (hafter : Inv (before.write w)) :
    Throughout Inv before (before.write w) := by
  refine ⟨[w], rfl, fun k => ?_⟩
  cases k with
  | zero => simpa using hbefore
  | succ k => simpa [Disk.write] using hafter

theorem trans (hfirst : Throughout Inv before after) (hsecond : Throughout Inv after later) :
    Throughout Inv before later := by
  obtain ⟨writes, hwrites, hinv⟩ := hfirst
  obtain ⟨more, hmore, hinv'⟩ := hsecond
  refine ⟨writes ++ more, by rw [hmore, hwrites, List.append_assoc], fun k => ?_⟩
  rw [List.take_append]
  rcases le_total writes.length k with hle | hle
  · have hk := hinv' (k - writes.length)
    rw [hwrites, List.append_assoc] at hk
    rwa [List.take_of_length_le hle]
  · rw [Nat.sub_eq_zero_of_le hle, List.take_zero, List.append_nil]
    exact hinv k

theorem mono {Inv' : Disk Payload → Prop} (himp : ∀ disk, Inv disk → Inv' disk)
    (hinv : Throughout Inv before after) : Throughout Inv' before after := by
  obtain ⟨writes, hwrites, hinv⟩ := hinv
  exact ⟨writes, hwrites, fun k => himp _ (hinv k)⟩

theorem finish (hinv : Throughout Inv before after) : Inv after := by
  obtain ⟨writes, hwrites, hinv⟩ := hinv
  have hall := hinv writes.length
  rwa [List.take_length, ← hwrites] at hall

/-- A crash finds it. -/
theorem cut (hinv : Throughout Inv before after) {n : ℕ} (hn : before.writes.length ≤ n) :
    Inv ⟨after.writes.take n⟩ := by
  obtain ⟨writes, hwrites, hinv⟩ := hinv
  rw [hwrites, List.take_append, List.take_of_length_le hn]
  exact hinv _

end Throughout

/-- What every write of the kind keeps holds throughout. -/
theorem Wrote.throughout {kind : DiskWrite Payload → Prop} {before after : Disk Payload}
    (Inv : Disk Payload → Prop) (hwrote : Wrote kind before after) (hbefore : Inv before)
    (hkeep : ∀ {disk w}, Inv disk → kind w → Inv (disk.write w)) :
    Throughout Inv before after := by
  obtain ⟨writes, hwrites, hkind⟩ := hwrote
  refine ⟨writes, hwrites, fun k => ?_⟩
  have hpart : Wrote kind before ⟨before.writes ++ writes.take k⟩ :=
    ⟨_, rfl, fun w hw => hkind w (List.mem_of_mem_take hw)⟩
  exact hpart.invariant Inv hbefore hkeep

/-! ## Other payloads -/

section Map

variable {Payload Payload' : Type*} (f : Payload → Payload')

/-- The same write with other payloads. -/
def mapWrite : DiskWrite Payload → DiskWrite Payload'
  | .batch ops => .batch (ops.map fun op => (op.1, op.2.map f))
  | .openTruncated path => .openTruncated path
  | .writeAll path data => .writeAll path data
  | .rename source target => .rename source target

/-- The disk with its payloads mapped. -/
def map (disk : Disk Payload) : Disk Payload' :=
  ⟨disk.writes.map (mapWrite f)⟩

theorem map_write (disk : Disk Payload) (w : DiskWrite Payload) :
    (disk.write w).map f = (disk.map f).write (mapWrite f w) := by
  unfold map write
  rw [List.map_append, List.map_singleton]

theorem applyOps_map (db : String → Option Payload) (ops : List (String × Option Payload)) :
    applyOps (fun key => (db key).map f) (ops.map fun op => (op.1, op.2.map f)) =
      fun key => (applyOps db ops key).map f := by
  induction ops using List.reverseRecOn with
  | nil => rfl
  | append_singleton ops op ih =>
    rw [List.map_append, List.map_singleton, applyOps_concat, applyOps_concat, ih]
    funext key
    rw [update_apply, update_apply]
    split <;> rfl

theorem get_map (disk : Disk Payload) (key : String) :
    (disk.map f).get key = (disk.get key).map f := by
  obtain ⟨writes⟩ := disk
  suffices hget : (map f ⟨writes⟩).get = fun key => (get ⟨writes⟩ key).map f by rw [hget]
  induction writes using List.reverseRecOn with
  | nil => rfl
  | append_singleton writes w ih =>
    have hlast : (map f ⟨writes ++ [w]⟩) = (map f ⟨writes⟩).write (mapWrite f w) :=
      map_write f ⟨writes⟩ w
    have hlast' : (get ⟨writes ++ [w]⟩ : String → Option Payload) =
        applyToDb (get ⟨writes⟩) w := @get_write _ ⟨writes⟩ w
    rw [hlast, hlast', get_write, ih]
    cases w with
    | batch ops => exact applyOps_map f _ ops
    | openTruncated | writeAll | rename => rfl

theorem writtenKeys_map (disk : Disk Payload) : (disk.map f).writtenKeys = disk.writtenKeys := by
  unfold writtenKeys map
  rw [List.flatMap_map]
  refine List.flatMap_congr fun w _ => ?_
  cases w with
  | batch ops => exact List.map_map ..
  | openTruncated | writeAll | rename => rfl

theorem put_or_of_applyOps {db : String → Option Payload} {ops : List (String × Option Payload)}
    {key : String} {value : Payload} (happly : applyOps db ops key = some value) :
    (key, some value) ∈ ops ∨ db key = some value := by
  induction ops using List.reverseRecOn with
  | nil => exact Or.inr happly
  | append_singleton ops op ih =>
    rw [applyOps_concat, update_apply] at happly
    split at happly
    next hkey =>
      rw [hkey, ← happly]
      exact Or.inl (List.mem_append_right _ List.mem_cons_self)
    next => exact (ih happly).imp_left (List.mem_append_left _)

/-- What is stored under a key was put there. -/
theorem exists_put_of_get {disk : Disk Payload} {key : String} {value : Payload}
    (hget : disk.get key = some value) :
    ∃ ops, DiskWrite.batch ops ∈ disk.writes ∧ (key, some value) ∈ ops := by
  obtain ⟨writes⟩ := disk
  induction writes using List.reverseRecOn with
  | nil => cases hget
  | append_singleton writes w ih =>
    have hold : get ⟨writes⟩ key = some value → ∃ ops,
        DiskWrite.batch ops ∈ writes ++ [w] ∧ (key, some value) ∈ ops := by
      intro hbefore
      obtain ⟨ops, hmem, hput⟩ := ih hbefore
      exact ⟨ops, List.mem_append_left _ hmem, hput⟩
    have hlast : (get ⟨writes ++ [w]⟩ : String → Option Payload) =
        applyToDb (get ⟨writes⟩) w := @get_write _ ⟨writes⟩ w
    rw [hlast] at hget
    cases w with
    | batch ops =>
      rcases put_or_of_applyOps hget with hput | hbefore
      · exact ⟨ops, List.mem_append_right _ List.mem_cons_self, hput⟩
      · exact hold hbefore
    | openTruncated | writeAll | rename => exact hold hget

end Map

end Disk

end Vosfs
