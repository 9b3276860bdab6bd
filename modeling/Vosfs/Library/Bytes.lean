import Mathlib.Algebra.Group.Defs
import Mathlib.Data.List.Basic
import Mathlib.Data.List.GetD
import Mathlib.Tactic.TypeStar

/-!
# Positional writes

`writeAt file offset data` puts `data` at an offset of a file.  A gap before the offset is filled
with zeros, and writing nothing changes nothing.

A file that is put together from parts of another file (`writeParts_nil_eq_iff`) is that file when
the last byte was written and every byte that was not written is zero.  If the parts are the fronts
of pieces that the file consists of, this is a condition on each piece
(`writeParts_pieces_eq_iff`).
-/

namespace Vosfs

variable {α : Type*} [Zero α]

/-- Write data at an offset: a gap is filled with zeros, and writing nothing changes nothing. -/
def writeAt (file : List α) (offset : ℕ) (data : List α) : List α :=
  if data = [] then
    file
  else
    file.take offset ++ List.replicate (offset - file.length) 0 ++ data ++
      file.drop (offset + data.length)

/-- Bytes beyond the end read as zero. -/
theorem getD_writeAt (file : List α) (offset : ℕ) (data : List α) (i : ℕ) :
    (writeAt file offset data).getD i 0 =
      if offset ≤ i ∧ i < offset + data.length then data.getD (i - offset) 0
      else file.getD i 0 := by
  unfold writeAt
  split
  next hnil =>
    rw [if_neg]
    rw [hnil, List.length_nil]
    omega
  next =>
    have hfront :
        (file.take offset ++ List.replicate (offset - file.length) 0).length = offset := by
      rw [List.length_append, List.length_take, List.length_replicate]
      omega
    simp only [List.getD_eq_getElem?_getD]
    by_cases hbefore : i < offset
    · rw [if_neg (by omega), List.append_assoc, List.getElem?_append_left (by omega)]
      by_cases hin : i < file.length
      · rw [List.getElem?_append_left (by rw [List.length_take]; omega),
          List.getElem?_take_of_lt hbefore]
      · rw [List.getElem?_append_right (by rw [List.length_take]; omega), List.getElem?_replicate,
          List.getElem?_eq_none (by omega : file.length ≤ i)]
        split <;> rfl
    · by_cases hwithin : i < offset + data.length
      · rw [if_pos ⟨by omega, hwithin⟩, List.append_assoc, List.getElem?_append_right (by omega),
          hfront, List.getElem?_append_left (by omega)]
      · rw [if_neg (by omega), List.getElem?_append_right (by rw [List.length_append]; omega),
          List.length_append, hfront, List.getElem?_drop]
        congr 2
        omega

theorem length_writeAt (file : List α) (offset : ℕ) {data : List α} (hne : data ≠ []) :
    (writeAt file offset data).length = max file.length (offset + data.length) := by
  unfold writeAt
  rw [if_neg hne]
  simp only [List.length_append, List.length_take, List.length_replicate, List.length_drop]
  omega

/-! ## Parts of a file -/

/-- The part of a file at an offset. -/
def part (content : List α) (offset size : ℕ) : List α :=
  (content.drop offset).take size

omit [Zero α] in
theorem length_part {content : List α} {offset size : ℕ} (hle : offset + size ≤ content.length) :
    (part content offset size).length = size := by
  rw [part, List.length_take, List.length_drop]
  omega

theorem getD_part {content : List α} {offset size i : ℕ} (hi : i < size) :
    (part content offset size).getD i 0 = content.getD (offset + i) 0 := by
  rw [part, List.getD_eq_getElem?_getD, List.getElem?_take_of_lt hi, List.getElem?_drop,
    List.getD_eq_getElem?_getD]

/-- Write some parts of a file to another file. -/
def writeParts (content : List α) (file : List α) (parts : List (ℕ × ℕ)) : List α :=
  parts.foldl (fun file place => writeAt file place.1 (part content place.1 place.2)) file

variable {content file : List α} {parts : List (ℕ × ℕ)}

theorem getD_writeParts (hparts : ∀ place ∈ parts, place.1 + place.2 ≤ content.length) (i : ℕ) :
    (writeParts content file parts).getD i 0 =
      if ∃ place ∈ parts, place.1 ≤ i ∧ i < place.1 + place.2 then content.getD i 0
      else file.getD i 0 := by
  induction parts generalizing file with
  | nil => simp [writeParts]
  | cons place parts ih =>
    have hrest := @ih (writeAt file place.1 (part content place.1 place.2))
      fun other hother => hparts other (List.mem_cons_of_mem _ hother)
    rw [writeParts, List.foldl_cons, ← writeParts, hrest, getD_writeAt,
      length_part (hparts place List.mem_cons_self)]
    simp only [List.exists_mem_cons_iff]
    by_cases hlater : ∃ place ∈ parts, place.1 ≤ i ∧ i < place.1 + place.2
    · rw [if_pos hlater, if_pos (Or.inr hlater)]
    · rw [if_neg hlater]
      by_cases hfirst : place.1 ≤ i ∧ i < place.1 + place.2
      · rw [if_pos hfirst, if_pos (Or.inl hfirst), getD_part (by omega)]
        congr 1
        omega
      · rw [if_neg hfirst, if_neg (by simp [hfirst, hlater])]

/-- The file grows up to the end of the last part. -/
theorem length_writeParts_eq_iff (hparts : ∀ place ∈ parts, place.1 + place.2 ≤ content.length)
    (hpos : ∀ place ∈ parts, 0 < place.2) (hlt : file.length < content.length) :
    (writeParts content file parts).length = content.length ↔
      ∃ place ∈ parts, place.1 + place.2 = content.length := by
  have hmax : ∀ file : List α, file.length ≤ content.length →
      ((writeParts content file parts).length = content.length ↔ file.length = content.length ∨
        ∃ place ∈ parts, place.1 + place.2 = content.length) := by
    induction parts with
    | nil => simp [writeParts]
    | cons place parts ih =>
      intro file hle
      have hplace := hparts place List.mem_cons_self
      have hne : part content place.1 place.2 ≠ [] := by
        intro hnil
        have hlength := length_part hplace
        rw [hnil, List.length_nil] at hlength
        have := hpos place List.mem_cons_self
        omega
      have hlength := length_writeAt file place.1 hne
      rw [length_part hplace] at hlength
      rw [writeParts, List.foldl_cons, ← writeParts,
        ih (fun other hother => hparts other (List.mem_cons_of_mem _ hother))
          (fun other hother => hpos other (List.mem_cons_of_mem _ hother)) _ (by omega), hlength]
      simp only [List.exists_mem_cons_iff, ← or_assoc]
      refine or_congr_left ?_
      omega
  rw [hmax file (Nat.le_of_lt hlt)]
  exact or_iff_right (Nat.ne_of_lt hlt)

/-- **Putting a file together.** -/
theorem writeParts_nil_eq_iff (hparts : ∀ place ∈ parts, place.1 + place.2 ≤ content.length)
    (hpos : ∀ place ∈ parts, 0 < place.2) (hne : content ≠ []) :
    writeParts content [] parts = content ↔
      (∃ place ∈ parts, place.1 + place.2 = content.length) ∧
        ∀ i, (∃ place ∈ parts, place.1 ≤ i ∧ i < place.1 + place.2) ∨ content.getD i 0 = 0 := by
  have hlt : ([] : List α).length < content.length := List.length_pos_iff.mpr hne
  rw [← length_writeParts_eq_iff hparts hpos hlt]
  have hget := @getD_writeParts _ _ content [] parts hparts
  constructor
  · intro heq
    refine ⟨congrArg List.length heq, fun i => or_iff_not_imp_left.mpr fun hnot => ?_⟩
    rw [← heq, hget, if_neg hnot]
    rfl
  · rintro ⟨hlength, hall⟩
    refine List.ext_getElem hlength fun i hi hi' => ?_
    have hbyte : (writeParts content [] parts).getD i 0 = content.getD i 0 := by
      rw [hget]
      split
      next => rfl
      next hnot => exact ((hall i).resolve_left hnot).symm
    rwa [List.getD_eq_getElem _ _ hi, List.getD_eq_getElem _ _ hi'] at hbyte

/-! ## Pieces that lose their tails -/

/-- A piece of a file, and how many of its bytes are kept. -/
structure Piece where
  offset : ℕ
  size : ℕ
  kept : ℕ

/-- The byte is one of the piece. -/
def Piece.Has (piece : Piece) (i : ℕ) : Prop :=
  piece.offset ≤ i ∧ i < piece.offset + piece.size

/-- A file consists of the pieces. -/
structure Tiles (length : ℕ) (pieces : List Piece) : Prop where
  bounds : ∀ piece ∈ pieces, piece.offset + piece.size ≤ length ∧ 0 < piece.kept ∧
    piece.kept ≤ piece.size
  once : ∀ piece ∈ pieces, ∀ piece' ∈ pieces, ∀ i, piece.Has i → piece'.Has i → piece = piece'
  covers : ∀ i < length, ∃ piece ∈ pieces, piece.Has i

/-- What the piece has lost are zeros, and nothing at the end of the file. -/
def Piece.LosesNothing (content : List α) (piece : Piece) : Prop :=
  (∀ i, piece.offset + piece.kept ≤ i → i < piece.offset + piece.size → content.getD i 0 = 0) ∧
    (piece.offset + piece.size = content.length → piece.kept = piece.size)

variable {pieces : List Piece}

/-- The last byte and all others but zeros are written exactly if every piece has kept its own. -/
theorem Tiles.losesNothing_iff (h : Tiles content.length pieces) (hne : content ≠ []) :
    ((∃ piece ∈ pieces, piece.offset + piece.kept = content.length) ∧
      ∀ i, (∃ piece ∈ pieces, piece.offset ≤ i ∧ i < piece.offset + piece.kept) ∨
        content.getD i 0 = 0) ↔
      ∀ piece ∈ pieces, piece.LosesNothing content := by
  have hlength := List.length_pos_iff.mpr hne
  constructor
  · rintro ⟨⟨last, hlast, hend⟩, hzeros⟩ piece hpiece
    have hbounds := h.bounds piece hpiece
    refine ⟨fun i hlow hhigh => (hzeros i).resolve_left ?_, fun hfile => ?_⟩
    · -- another piece cannot have written the byte
      rintro ⟨other, hother, hother_low, hother_high⟩
      have hkept := (h.bounds other hother).2.2
      obtain rfl := h.once piece hpiece other hother i ⟨by omega, hhigh⟩ ⟨hother_low, by omega⟩
      omega
    · have hkept := (h.bounds last hlast)
      obtain rfl := h.once piece hpiece last hlast (content.length - 1)
        ⟨by omega, by omega⟩ ⟨by omega, by omega⟩
      omega
  · intro hall
    refine ⟨?_, fun i => ?_⟩
    · obtain ⟨piece, hpiece, hlow, hhigh⟩ := h.covers (content.length - 1) (by omega)
      have hbounds := h.bounds piece hpiece
      have hend : piece.offset + piece.size = content.length := by omega
      exact ⟨piece, hpiece, (hall piece hpiece).2 hend ▸ hend⟩
    · by_cases hi : i < content.length
      · obtain ⟨piece, hpiece, hlow, hhigh⟩ := h.covers i hi
        by_cases hkept : i < piece.offset + piece.kept
        · exact Or.inl ⟨piece, hpiece, hlow, hkept⟩
        · exact Or.inr ((hall piece hpiece).1 i (by omega) hhigh)
      · exact Or.inr (List.getD_eq_default _ _ (by omega))

theorem writeParts_pieces_eq_iff (h : Tiles content.length pieces) (hne : content ≠ []) :
    writeParts content [] (pieces.map fun piece => (piece.offset, piece.kept)) = content ↔
      ∀ piece ∈ pieces, piece.LosesNothing content := by
  have hbounds : ∀ place ∈ pieces.map fun piece => (piece.offset, piece.kept),
      place.1 + place.2 ≤ content.length ∧ 0 < place.2 := by
    intro place hplace
    obtain ⟨piece, hpiece, rfl⟩ := List.mem_map.mp hplace
    have hpiece' := h.bounds piece hpiece
    exact ⟨by dsimp only; omega, hpiece'.2.1⟩
  rw [writeParts_nil_eq_iff (fun place hplace => (hbounds place hplace).1)
    (fun place hplace => (hbounds place hplace).2) hne, ← h.losesNothing_iff hne]
  simp only [List.mem_map, exists_exists_and_eq_and]

end Vosfs
