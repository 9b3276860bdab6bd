import Mathlib.Data.List.Basic
import Mathlib.Data.Nat.Notation
import Mathlib.Tactic.TypeStar

/-!
# Readers

A reader takes a value off the front of a list and looks at nothing behind what it takes
(`Reader.takes`).  So what it does with a piece of the list says what it does with the whole list:
behind the piece (`run_append`), and when the list ends inside the piece (`run_take`).

A loop that reads until the list is used up (`Reader.readAll`) goes through the pieces one by one.
When the list is cut, the loop succeeds at the ends of the pieces, and nowhere else
(`readAll_take_iff`).
-/

namespace Vosfs

/-- A reader takes bytes from the front of a buffer, and does not look at the ones behind those it
takes (`takes`). -/
structure Reader (Byte α : Type*) where
  run : List Byte → Option (α × List Byte)
  takes {buf rest : List Byte} {a : α} (h : run buf = some (a, rest)) :
    ∃ used, buf = used ++ rest ∧ ∀ more, run (used ++ more) = some (a, more)

namespace Reader

universe u

variable {Byte : Type*} {α β : Type u} {σ : Type*}

/-! ### Building readers -/

/-- Takes nothing. -/
def ofOption (value : Option α) : Reader Byte α where
  run buf := value.map (·, buf)
  takes {buf rest a} h := by
    obtain ⟨_, rfl, heq⟩ := Option.map_eq_some_iff.mp h
    cases heq
    exact ⟨[], rfl, fun more => rfl⟩

/-- Read, and go on with what was read. -/
def bind (r : Reader Byte α) (next : α → Reader Byte β) : Reader Byte β where
  run buf := (r.run buf).bind fun p => (next p.1).run p.2
  takes {buf rest b} h := by
    obtain ⟨⟨a, middle⟩, hfirst, hsecond⟩ := Option.bind_eq_some_iff.mp h
    obtain ⟨used, rfl, hused⟩ := r.takes hfirst
    obtain ⟨used', rfl, hused'⟩ := (next a).takes hsecond
    refine ⟨used ++ used', (List.append_assoc ..).symm, fun more => ?_⟩
    rw [List.append_assoc, hused]
    exact hused' more

instance : Monad (Reader Byte) where
  pure a := ofOption (some a)
  bind := bind

/-- The next `count` bytes, if there are that many. -/
def bytes (count : ℕ) : Reader Byte (List Byte) where
  run buf := if count ≤ buf.length then some (buf.take count, buf.drop count) else none
  takes {buf rest a} h := by
    split at h
    next hle =>
      cases h
      refine ⟨buf.take count, (List.take_append_drop ..).symm, fun more => ?_⟩
      have hlength : (buf.take count).length = count := List.length_take_of_le hle
      rw [if_pos (by rw [List.length_append, hlength]; exact Nat.le_add_right ..),
        List.take_left' hlength, List.drop_left' hlength]
    next => cases h

@[simp] theorem run_pure (a : α) (buf : List Byte) :
    (pure a : Reader Byte α).run buf = some (a, buf) := rfl

@[simp] theorem run_ofOption (value : Option α) (buf : List Byte) :
    (ofOption value : Reader Byte α).run buf = value.map (·, buf) := rfl

@[simp] theorem run_bind (r : Reader Byte α) (next : α → Reader Byte β) (buf : List Byte) :
    (r >>= next).run buf = (r.run buf).bind fun p => (next p.1).run p.2 := rfl

theorem run_map (f : α → β) {r : Reader Byte α} {buf rest : List Byte} {a : α}
    (h : r.run buf = some (a, rest)) : (f <$> r).run buf = some (f a, rest) := by
  show (r.run buf).bind _ = _
  rw [h]
  rfl

theorem run_bytes_append (front rest : List Byte) :
    (bytes front.length).run (front ++ rest) = some (front, rest) := by
  simp [bytes]

/-! ### What a reader does with a piece -/

variable {r : Reader Byte α} {buf rest piece : List Byte} {a : α}

theorem run_append (h : r.run buf = some (a, rest)) (more : List Byte) :
    r.run (buf ++ more) = some (a, rest ++ more) := by
  obtain ⟨used, rfl, hused⟩ := r.takes h
  rw [List.append_assoc]
  exact hused _

theorem length_le (h : r.run buf = some (a, rest)) : rest.length ≤ buf.length := by
  obtain ⟨used, rfl, -⟩ := r.takes h
  rw [List.length_append]
  exact Nat.le_add_left ..

/-- A reader that reads nothing off the empty list takes a byte at least. -/
theorem length_lt (hnil : r.run [] = none) (h : r.run buf = some (a, rest)) :
    rest.length < buf.length := by
  obtain ⟨used, rfl, hused⟩ := r.takes h
  cases used with
  | nil =>
    have := hused []
    rw [List.nil_append, hnil] at this
    cases this
  | cons byte used =>
    rw [List.length_append, List.length_cons]
    exact Nat.lt_add_of_pos_left (Nat.succ_pos _)

/-- A piece that is taken whole cannot be read from a part of it. -/
theorem run_take (h : r.run piece = some (a, [])) {n : ℕ} (hn : n < piece.length) :
    r.run (piece.take n) = none := by
  cases hcut : r.run (piece.take n) with
  | none => rfl
  | some found =>
    have hwhole := run_append hcut (piece.drop n)
    rw [List.take_append_drop, h, Option.some.injEq, Prod.mk.injEq] at hwhole
    have hdrop : piece.drop n = [] := (List.append_eq_nil_iff.mp hwhole.2.symm).2
    exact absurd (List.drop_eq_nil_iff.mp hdrop) (Nat.not_le_of_lt hn)

/-! ### Reading until nothing is left -/

/-- The rounds of the loop.  There are as many as there are bytes at most. -/
def rounds (step : σ → Reader Byte σ) : ℕ → σ → List Byte → Option σ
  | _, s, [] => some s
  | 0, _, _ :: _ => none
  | fuel + 1, s, byte :: buf =>
    ((step s).run (byte :: buf)).bind fun p => rounds step fuel p.1 p.2

/-- Read until the buffer is empty. -/
def readAll (step : σ → Reader Byte σ) (s : σ) (buf : List Byte) : Option σ :=
  rounds step buf.length s buf

/-- What reading a piece makes of the state, if it is taken whole. -/
def absorb (step : σ → Reader Byte σ) (s : σ) (piece : List Byte) : Option σ :=
  match (step s).run piece with
  | some (s', []) => some s'
  | _ => none

variable {step : σ → Reader Byte σ} {s s' : σ} {pieces : List (List Byte)}

theorem absorb_eq_some_iff : absorb step s piece = some s' ↔
    (step s).run piece = some (s', []) := by
  unfold absorb
  split
  next found hrun => rw [hrun, Option.some.injEq, Option.some.injEq, Prod.mk.injEq, and_iff_left rfl]
  next hnone =>
    constructor
    · exact fun h => by cases h
    · exact fun hrun => absurd hrun (hnone s')

@[simp] theorem readAll_nil (step : σ → Reader Byte σ) (s : σ) : readAll step s [] = some s := by
  unfold readAll rounds
  rfl

/-- More rounds than bytes change nothing. -/
theorem rounds_eq_rounds (hnil : ∀ s, (step s).run [] = none) {fuel fuel' : ℕ}
    (hfuel : buf.length ≤ fuel) (hfuel' : buf.length ≤ fuel') :
    rounds step fuel s buf = rounds step fuel' s buf := by
  induction fuel generalizing fuel' s buf with
  | zero =>
    rw [List.length_eq_zero_iff.mp (Nat.le_zero.mp hfuel)]
    cases fuel' <;> rfl
  | succ fuel ih =>
    cases buf with
    | nil => cases fuel' <;> rfl
    | cons byte buf =>
      obtain ⟨fuel', rfl⟩ := Nat.exists_eq_add_one_of_ne_zero (Nat.ne_zero_of_lt hfuel')
      show ((step s).run (byte :: buf)).bind (fun p => rounds step fuel p.1 p.2) =
        ((step s).run (byte :: buf)).bind (fun p => rounds step fuel' p.1 p.2)
      refine Option.bind_congr fun p hrun => ?_
      have hless : p.2.length ≤ buf.length := Nat.le_of_lt_succ (length_lt (hnil s) hrun)
      exact ih (Nat.le_trans hless (Nat.le_of_succ_le_succ hfuel))
        (Nat.le_trans hless (Nat.le_of_succ_le_succ hfuel'))

/-- The loop begins with one round, and goes on with what that round leaves. -/
theorem readAll_eq_bind (hnil : ∀ s, (step s).run [] = none) (hne : buf ≠ []) :
    readAll step s buf = ((step s).run buf).bind fun p => readAll step p.1 p.2 := by
  cases buf with
  | nil => exact absurd rfl hne
  | cons byte buf =>
    show ((step s).run (byte :: buf)).bind (fun p => rounds step buf.length p.1 p.2) = _
    refine Option.bind_congr fun p hrun => ?_
    exact rounds_eq_rounds hnil (Nat.le_of_lt_succ (length_lt (hnil s) hrun)) (Nat.le_refl _)

theorem ne_nil_of_absorb (hnil : ∀ s, (step s).run [] = none)
    (habsorb : absorb step s piece = some s') : piece ≠ [] := by
  rintro rfl
  rw [absorb_eq_some_iff, hnil] at habsorb
  cases habsorb

theorem readAll_append (hnil : ∀ s, (step s).run [] = none)
    (habsorb : absorb step s piece = some s') (rest : List Byte) :
    readAll step s (piece ++ rest) = readAll step s' rest := by
  have hne := List.append_ne_nil_of_left_ne_nil (ne_nil_of_absorb hnil habsorb) rest
  rw [readAll_eq_bind hnil hne, run_append (absorb_eq_some_iff.mp habsorb), Option.bind_some,
    List.nil_append]

/-- A list that ends inside a piece is refused. -/
theorem readAll_take (hnil : ∀ s, (step s).run [] = none)
    (habsorb : absorb step s piece = some s') {n : ℕ} (hpos : 0 < n) (hn : n < piece.length) :
    readAll step s (piece.take n) = none := by
  have hne : piece.take n ≠ [] := by
    intro hempty
    have hlength := congrArg List.length hempty
    rw [List.length_take_of_le (Nat.le_of_lt hn)] at hlength
    exact Nat.ne_of_gt hpos hlength
  rw [readAll_eq_bind hnil hne, run_take (absorb_eq_some_iff.mp habsorb) hn, Option.bind_none]

/-- The loop goes through the pieces one by one. -/
theorem readAll_flatten (hnil : ∀ s, (step s).run [] = none)
    (hpieces : pieces.foldlM (absorb step) s = some s') (rest : List Byte) :
    readAll step s (pieces.flatten ++ rest) = readAll step s' rest := by
  induction pieces generalizing s with
  | nil =>
    cases hpieces
    rfl
  | cons piece pieces ih =>
    obtain ⟨middle, hfirst, hrest⟩ := Option.bind_eq_some_iff.mp hpieces
    rw [List.flatten_cons, List.append_assoc, readAll_append hnil hfirst, ih hrest]

/-- **Only the ends of pieces can be taken for the end**: when the list is cut, the loop succeeds
if no piece is cut, with what the pieces in front make of the state. -/
theorem readAll_take_iff (hnil : ∀ s, (step s).run [] = none)
    (hpieces : pieces.foldlM (absorb step) s = some s') {n : ℕ} (hn : n ≤ pieces.flatten.length)
    {cut : σ} :
    readAll step s (pieces.flatten.take n) = some cut ↔
      ∃ k, n = (pieces.take k).flatten.length ∧
        (pieces.take k).foldlM (absorb step) s = some cut := by
  induction pieces generalizing s n with
  | nil =>
    obtain rfl : n = 0 := Nat.le_zero.mp hn
    simp
  | cons piece pieces ih =>
    obtain ⟨middle, hfirst, hrest⟩ := Option.bind_eq_some_iff.mp hpieces
    have hlength : 0 < piece.length := List.length_pos_iff.mpr (ne_nil_of_absorb hnil hfirst)
    rw [List.flatten_cons, List.length_append] at hn
    rw [List.flatten_cons, ← Nat.or_exists_add_one]
    simp only [List.take_zero, List.flatten_nil, List.length_nil, List.foldlM_nil,
      List.take_succ_cons, List.flatten_cons, List.length_append, List.foldlM_cons, hfirst]
    by_cases hinside : n < piece.length
    · have hnot : ¬∃ k, n = piece.length + (pieces.take k).flatten.length ∧
          (some middle >>= (pieces.take k).foldlM (absorb step)) = some cut := by
        rintro ⟨k, rfl, -⟩
        omega
      rw [List.take_append_of_le_length (Nat.le_of_lt hinside), or_iff_left hnot]
      rcases Nat.eq_zero_or_pos n with rfl | hpos
      · rw [List.take_zero, readAll_nil, and_iff_right rfl]
        rfl
      · rw [readAll_take hnil hfirst hpos hinside]
        constructor
        · intro h
          cases h
        · intro h
          exact absurd h.1 (Nat.ne_of_gt hpos)
    · obtain ⟨m, rfl⟩ := Nat.exists_eq_add_of_le (Nat.le_of_not_lt hinside)
      have hnot : ¬(piece.length + m = 0 ∧ (pure s : Option σ) = some cut) := by
        rintro ⟨hzero, -⟩
        omega
      rw [or_iff_right hnot, List.take_length_add_append, readAll_append hnil hfirst,
        ih hrest (Nat.le_of_add_le_add_left hn)]
      simp only [Nat.add_left_cancel_iff, Option.bind_eq_bind, Option.bind_some]

end Reader

end Vosfs
