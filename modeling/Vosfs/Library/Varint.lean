import Vosfs.Library.Wire

/-!
# Numbers to base 128

Seven bits in each byte, the lowest first; all bytes but the last have their high bit set.  With
these numbers the fields of protocol buffers are read back (`lawful_base128`).
-/

namespace Vosfs.Varint

/-- Groups of seven bits, the low one first, in at most `count` bytes. -/
def write : ℕ → ℕ → List UInt8
  | 0, _ => []
  | count + 1, n =>
    if n < 128 then [UInt8.ofNat n] else UInt8.ofNat (n % 128 + 128) :: write count (n / 128)

/-- A number of `count` bytes at most. -/
def read : ℕ → List UInt8 → Option (ℕ × List UInt8)
  | 0, _ => none
  | _ + 1, [] => none
  | count + 1, byte :: rest =>
    if byte.toNat < 128 then
      some (byte.toNat, rest)
    else
      (read count rest).map fun found => (byte.toNat - 128 + 128 * found.1, found.2)

theorem toNat_ofNat {n : ℕ} (hlt : n < 256) : (UInt8.ofNat n).toNat = n := by
  rw [UInt8.toNat_ofNat']
  exact Nat.mod_eq_of_lt hlt

theorem read_write {count total n : ℕ} (hle : count ≤ total) (hlt : n < 128 ^ (count + 1)) :
    read (count + 1) (write (total + 1) n) = some (n, []) := by
  induction count generalizing total n with
  | zero =>
    rw [Nat.zero_add, Nat.pow_one] at hlt
    rw [write, if_pos hlt, read, toNat_ofNat (by omega), if_pos hlt]
  | succ count ih =>
    obtain ⟨total, rfl⟩ := Nat.exists_eq_add_one_of_ne_zero (Nat.ne_zero_of_lt hle)
    rw [write]
    split
    next hless => rw [read, toNat_ofNat (by omega), if_pos hless]
    next hmore =>
      have hbyte := toNat_ofNat (n := n % 128 + 128) (by omega)
      have hrest : n / 128 < 128 ^ (count + 1) :=
        Nat.div_lt_of_lt_mul (by rwa [Nat.pow_succ, Nat.mul_comm] at hlt)
      rw [read, hbyte, if_neg (by omega), ih (Nat.le_of_succ_le_succ hle) hrest, Option.map_some,
        Nat.add_sub_cancel, Nat.mod_add_div]

/-- `read` as a reader. -/
def reader (count : ℕ) : Reader UInt8 ℕ where
  run := read count
  takes {buf rest n} h := by
    induction count generalizing buf n with
    | zero => cases h
    | succ count ih =>
      cases buf with
      | nil => cases h
      | cons byte buf =>
        rw [read] at h
        split at h
        next hlast =>
          cases h
          exact ⟨[byte], rfl, fun more => if_pos hlast⟩
        next hmore =>
          obtain ⟨⟨m, found⟩, hread, heq⟩ := Option.map_eq_some_iff.mp h
          cases heq
          obtain ⟨used, rfl, hused⟩ := ih hread
          refine ⟨byte :: used, rfl, fun more => ?_⟩
          rw [List.cons_append, read, if_neg hmore, hused]
          rfl

/-- Ten bytes hold 64 bits, and five bytes hold a tag or a size.  Groups, of which generated code
makes none, are refused. -/
@[reducible] def base128 : Wire.Runtime where
  writeVarint := write 10
  readTag := (· % 2 ^ 32) <$> reader 5
  readVarint := (· % 2 ^ 64) <$> reader 10
  readSize := do
    let size ← reader 5
    Reader.ofOption (if size ≤ Wire.maxSize then some size else none)
  unknownFieldParse tag :=
    if tag / 8 = 0 then
      Reader.ofOption none
    else if tag % 8 = 0 then
      (fun _ => ()) <$> reader 10
    else if tag % 8 = 1 then
      (fun _ => ()) <$> Reader.bytes 8
    else if tag % 8 = 2 then do
      let size ← reader 5
      let _ ← Reader.bytes size
      pure ()
    else if tag % 8 = 5 then
      (fun _ => ()) <$> Reader.bytes 4
    else
      Reader.ofOption none

theorem lawful_base128 : @Wire.LawfulRuntime base128 := by
  refine @Wire.LawfulRuntime.mk base128 rfl ?_ rfl ?_ ?_
  · intro tag _ hlt
    have hread : (reader 5).run (write 10 tag) = some (tag, []) :=
      read_write (by decide) (Nat.lt_trans hlt (by decide))
    exact (Reader.run_map _ hread).trans (by rw [Nat.mod_eq_of_lt hlt])
  · intro n hlt
    have hread : (reader 10).run (write 10 n) = some (n, []) :=
      read_write (by decide) (Nat.lt_trans hlt (by decide))
    exact (Reader.run_map _ hread).trans (by rw [Nat.mod_eq_of_lt hlt])
  · intro n hle
    have hread : (reader 5).run (write 10 n) = some (n, []) :=
      read_write (by decide) (Nat.lt_of_le_of_lt hle (by decide))
    show ((reader 5).run (write 10 n)).bind _ = _
    rw [hread, Option.bind_some]
    simp only [if_pos hle]
    rfl

end Vosfs.Varint
