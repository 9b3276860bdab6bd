import Mathlib.Algebra.Group.Int.Defs
import Mathlib.Algebra.Group.Nat.Defs
import Mathlib.Data.Int.Notation
import Mathlib.Data.List.TakeWhile
import Vosfs.Library.Decimal

/-!
# Numbers from strings

`std::stoull` and `std::stoll`: white space and a sign may come first, and what follows the
digits is ignored.  `none` is an exception: there is no digit, or the number is out of range.
-/

namespace Vosfs

/-- `isspace`. -/
def isSpace (c : Char) : Bool :=
  c = ' ' || (9 ≤ c.toNat && c.toNat ≤ 13)

/-- A minus sign, if there is one, and the digits. -/
def splitSign : List Char → Bool × List Char
  | '-' :: rest => (true, rest)
  | '+' :: rest => (false, rest)
  | rest => (false, rest)

/-- Whether the number is negated, and its absolute value. -/
def readInteger (chars : List Char) : Option (Bool × ℕ) :=
  let (negative, rest) := splitSign (chars.dropWhile isSpace)
  let digits := rest.takeWhile Char.isDigit
  if digits = [] then none else some (negative, Nat.ofDigitChars 10 digits 0)

/-- A negated number wraps around. -/
def stoull (s : String) : Option ℕ :=
  match readInteger s.toList with
  | none => none
  | some (negative, n) =>
    if n < 2 ^ 64 then some (if negative then (2 ^ 64 - n) % 2 ^ 64 else n) else none

/-- `std::stoll`: `none` where it throws. -/
def stoll (s : String) : Option ℤ :=
  match readInteger s.toList with
  | none => none
  | some (true, n) => if n ≤ 2 ^ 63 then some (-n) else none
  | some (false, n) => if n < 2 ^ 63 then some n else none

/-! ## Reading what was printed -/

theorem not_isSpace_of_isDigit {c : Char} (hc : c.isDigit = true) : isSpace c = false := by
  simp only [Char.isDigit, Bool.and_eq_true, decide_eq_true_eq] at hc
  have hlow : 48 ≤ c.toNat := hc.1
  simp only [isSpace, Bool.or_eq_false_iff, Bool.and_eq_false_iff, decide_eq_false_iff_not]
  refine ⟨?_, Or.inr (by omega)⟩
  rintro rfl
  exact absurd hlow (by decide)

theorem splitSign_of_isDigit {c : Char} {rest : List Char} (hc : c.isDigit = true) :
    splitSign (c :: rest) = (false, c :: rest) := by
  unfold splitSign
  split
  next heq => cases heq; cases hc
  next heq => cases heq; cases hc
  next => rfl

theorem readInteger_of_isDigit {digits : List Char} (hne : digits ≠ [])
    (hdigits : ∀ c ∈ digits, c.isDigit = true) :
    readInteger digits = some (false, Nat.ofDigitChars 10 digits 0) := by
  cases digits with
  | nil => exact absurd rfl hne
  | cons c rest =>
    have hc := hdigits c List.mem_cons_self
    have htake : (c :: rest).takeWhile Char.isDigit = c :: rest :=
      List.takeWhile_eq_self_iff.mpr hdigits
    unfold readInteger
    rw [List.dropWhile_cons_of_neg (by rw [not_isSpace_of_isDigit hc]; decide),
      splitSign_of_isDigit hc]
    simp only [htake, if_neg hne]

theorem readInteger_toString (n : ℕ) : readInteger (toString n).toList = some (false, n) := by
  rw [Nat.toString_eq_repr, Nat.toList_repr,
    readInteger_of_isDigit Nat.toDigits_ne_nil fun c hc =>
      Nat.isDigit_of_mem_toDigits (by decide) (by decide) hc,
    Nat.ofDigitChars_ten_toDigits]

theorem stoull_toString {n : ℕ} (hn : n < 2 ^ 64) : stoull (toString n) = some n := by
  unfold stoull
  rw [readInteger_toString]
  exact if_pos hn

theorem stoll_toString {n : ℕ} (hn : n < 2 ^ 63) : stoll (toString n) = some (n : ℤ) := by
  unfold stoll
  rw [readInteger_toString]
  exact if_pos hn

example : stoull "" = none := by decide

example : stoull "-1" = some 18446744073709551615 := by decide

end Vosfs
