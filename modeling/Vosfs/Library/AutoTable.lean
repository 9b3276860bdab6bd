import Mathlib.Algebra.Group.Nat.Defs
import Mathlib.Data.List.Nodup

/-!
# Tables with automatic keys

A table whose key is `INTEGER PRIMARY KEY AUTOINCREMENT` and one of whose columns is `UNIQUE`,
as SQLite keeps it.  A row gets a key above all that were ever used; it is not inserted if the
keys are used up or its value in the column is taken, and then nothing changes.

Keys and values of the column are unique by construction: no operation needs more than the
table it is applied to.
-/

namespace Vosfs

/-- The last key, the largest number of 64 bits with a sign. -/
def maxKey : ℕ := 2 ^ 63 - 1

/-- Rows with their keys, and the last key that was used. -/
structure AutoTable {α κ : Type*} (column : α → κ) where
  rows : List (ℕ × α)
  sequence : ℕ
  bounds : ∀ row ∈ rows, 0 < row.1 ∧ row.1 ≤ sequence
  capacity : sequence ≤ maxKey
  ascending : rows.Pairwise (fun row row' => row.1 < row'.1)
  unique : (rows.map fun row => column row.2).Nodup

namespace AutoTable

variable {α κ : Type*} {column : α → κ} (table : AutoTable column)

instance : EmptyCollection (AutoTable column) where
  emptyCollection :=
    { rows      := []
      sequence  := 0
      bounds    := fun _ hrow => absurd hrow List.not_mem_nil
      capacity  := Nat.zero_le _
      ascending := .nil
      unique    := List.nodup_nil }

/-- The keys, in the order in which the rows were inserted. -/
def keys : List ℕ :=
  table.rows.map Prod.fst

/-- Delete the rows that match. -/
def delete (hits : ℕ × α → Bool) : AutoTable column where
  rows      := table.rows.filter fun row => !hits row
  sequence  := table.sequence
  bounds    := fun row hrow => table.bounds row (List.mem_of_mem_filter hrow)
  capacity  := table.capacity
  ascending := table.ascending.filter _
  unique    := table.unique.sublist (List.filter_sublist.map _)

/-- Change the row with a key, but not its value in the column. -/
def update (key : ℕ) (change : α → α) (hcolumn : ∀ value, column (change value) = column value) :
    AutoTable column where
  rows      := table.rows.map fun row => if row.1 = key then (row.1, change row.2) else row
  sequence  := table.sequence
  bounds    := by
    intro row hrow
    obtain ⟨original, hmem, rfl⟩ := List.mem_map.mp hrow
    split <;> exact table.bounds original hmem
  capacity  := table.capacity
  ascending := by
    refine List.pairwise_map.mpr (table.ascending.imp fun {row row'} hlt => ?_)
    split <;> split <;> exact hlt
  unique    := by
    have hsame : (fun row : ℕ × α => column row.2) ∘
        (fun row => if row.1 = key then (row.1, change row.2) else row) =
        fun row => column row.2 := by
      funext row
      dsimp only [Function.comp]
      split
      · exact hcolumn row.2
      · rfl
    rw [List.map_map, hsame]
    exact table.unique

/-- `none`: the row violates a constraint. -/
def insert [DecidableEq κ] (value : α) : Option (AutoTable column) :=
  if hfits : table.sequence < maxKey ∧ ∀ row ∈ table.rows, column row.2 ≠ column value then
    some
      { rows      := table.rows ++ [(table.sequence + 1, value)]
        sequence  := table.sequence + 1
        bounds    := by
          intro row hrow
          rcases List.mem_append.mp hrow with hold | hnew
          · have hbounds := table.bounds row hold
            omega
          · obtain rfl := List.mem_singleton.mp hnew
            exact ⟨Nat.succ_pos _, Nat.le_refl _⟩
        capacity  := hfits.1
        ascending := by
          refine List.pairwise_append.mpr ⟨table.ascending, List.pairwise_singleton _ _, ?_⟩
          intro row hrow row' hrow'
          obtain rfl := List.mem_singleton.mp hrow'
          exact Nat.lt_succ_of_le (table.bounds row hrow).2
        unique    := by
          rw [List.map_append, List.map_singleton]
          refine table.unique.append (List.nodup_singleton _) ?_
          intro name hname hname'
          obtain ⟨row, hrow, rfl⟩ := List.mem_map.mp hname
          exact hfits.2 row hrow (List.mem_singleton.mp hname') }
  else
    none

variable {table} {table' : AutoTable column} {row row' : ℕ × α}

theorem keys_nodup : table.keys.Nodup :=
  List.pairwise_map.mpr (table.ascending.imp fun hlt => Nat.ne_of_lt hlt)

/-- A key belongs to one row. -/
theorem eq_of_key (hrow : row ∈ table.rows) (hrow' : row' ∈ table.rows) (hkey : row.1 = row'.1) :
    row = row' :=
  List.inj_on_of_nodup_map keys_nodup hrow hrow' hkey

theorem insert_eq_some [DecidableEq κ] {value : α} (hinsert : table.insert value = some table') :
    table'.rows = table.rows ++ [(table.sequence + 1, value)] ∧
      table'.sequence = table.sequence + 1 := by
  unfold insert at hinsert
  split at hinsert
  · cases hinsert
    exact ⟨rfl, rfl⟩
  · cases hinsert

theorem mem_delete {hits : ℕ × α → Bool} :
    row ∈ (table.delete hits).rows ↔ row ∈ table.rows ∧ hits row = false := by
  simp [delete]

/-- An update keeps the keys. -/
theorem keys_update {key : ℕ} {change : α → α}
    {hcolumn : ∀ value, column (change value) = column value} :
    (table.update key change hcolumn).keys = table.keys := by
  unfold keys update
  rw [List.map_map]
  refine List.map_congr_left fun row _ => ?_
  dsimp only [Function.comp]
  split <;> rfl

/-- A row after an update is a row from before, perhaps changed. -/
theorem exists_of_mem_update {key : ℕ} {change : α → α}
    {hcolumn : ∀ value, column (change value) = column value}
    (hrow : row ∈ (table.update key change hcolumn).rows) :
    ∃ original ∈ table.rows, row.1 = original.1 ∧
      (row.2 = original.2 ∨ row.2 = change original.2) := by
  obtain ⟨original, hmem, rfl⟩ := List.mem_map.mp hrow
  refine ⟨original, hmem, ?_⟩
  split
  · exact ⟨rfl, Or.inr rfl⟩
  · exact ⟨rfl, Or.inl rfl⟩

end AutoTable

end Vosfs
