import Mathlib.Data.List.Basic
import Mathlib.Logic.Function.Basic

/-!
# Numbers in names

Names that are built of numbers in decimal notation determine the numbers.
-/

namespace Vosfs

theorem toString_injective : Function.Injective (toString : ℕ → String) := by
  intro m n heq
  have hdigits : Nat.toDigits 10 m = Nat.toDigits 10 n :=
    String.ofList_injective heq
  rw [← Nat.ofDigitChars_ten_toDigits (n := m), hdigits, Nat.ofDigitChars_ten_toDigits]

theorem notMem_toString {c : Char} (hc : c.isDigit = false) (n : ℕ) : c ∉ (toString n).toList := by
  rw [Nat.toString_eq_repr, Nat.toList_repr]
  intro hmem
  have hdigit := Nat.isDigit_of_mem_toDigits (by decide) (by decide) hmem
  rw [hc] at hdigit
  cases hdigit

/-- A character that is no digit separates two numbers. -/
theorem toString_separated {c : Char} (hc : c.isDigit = false) {m m' n n' : ℕ}
    (heq : toString m ++ String.singleton c ++ toString n =
      toString m' ++ String.singleton c ++ toString n') : m = m' ∧ n = n' := by
  have hlist : (toString m).toList ++ c :: (toString n).toList =
      (toString m').toList ++ c :: (toString n').toList := by
    simpa using congrArg String.toList heq
  obtain ⟨hm, -, hn⟩ := (List.append_cons_inj_of_notMem (notMem_toString hc m)
    (notMem_toString hc n)).mp hlist
  exact ⟨toString_injective (String.toList_injective hm),
    toString_injective (String.toList_injective hn)⟩

end Vosfs
