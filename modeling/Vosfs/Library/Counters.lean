import Mathlib.Data.Finset.Basic
import Mathlib.Logic.Function.Basic

/-!
# Numbers from several counters

Each member of a group has a counter and takes numbers from it.  A number that some
counter has passed may be in use; one that no counter has passed is not.  So a number is
new if it comes from the highest counter (`not_passed_of_highest`), and numbers in use
stay passed as long as no step takes the highest counter away (`Follows`).
-/

namespace Vosfs.Counters

open Function

variable {ι : Type*} {members : Finset ι} {next next' next'' : ι → ℕ} {id : ι} {n value : ℕ}

/-- Some counter is past `n`. -/
def Passed (members : Finset ι) (next : ι → ℕ) (n : ℕ) : Prop :=
  ∃ m ∈ members, n < next m

/-- No member counts further. -/
def Highest (members : Finset ι) (next : ι → ℕ) (id : ι) : Prop :=
  ∀ m ∈ members, next m ≤ next id

/-- For each counter there is one later that is no lower. -/
def Follows (members : Finset ι) (next next' : ι → ℕ) : Prop :=
  ∀ m ∈ members, ∃ m' ∈ members, next m ≤ next' m'

theorem Passed.follows (hpassed : Passed members next n) (hfollows : Follows members next next') :
    Passed members next' n := by
  obtain ⟨m, hm, hlt⟩ := hpassed
  obtain ⟨m', hm', hle⟩ := hfollows m hm
  exact ⟨m', hm', hlt.trans_le hle⟩

theorem not_passed_of_highest (hhighest : Highest members next id) :
    ¬ Passed members next (next id) := by
  rintro ⟨m, hm, hlt⟩
  exact absurd (hhighest m hm) (not_le.mpr hlt)

theorem Follows.refl : Follows members next next :=
  fun m hm => ⟨m, hm, le_rfl⟩

variable [DecidableEq ι]

/-- Raising a counter. -/
theorem follows_update (hle : next id ≤ value) : Follows members next (update next id value) := by
  intro m hm
  refine ⟨m, hm, ?_⟩
  rw [update_apply]
  split
  next heq => rwa [heq]
  next => exact le_rfl

/-- Setting a counter, when another one is as high. -/
theorem follows_update_of_other {other : ι} (hother : other ∈ members) (hne : other ≠ id)
    (hle : next id ≤ next other) : Follows members next (update next id value) := by
  intro m hm
  by_cases heq : m = id
  · refine ⟨other, hother, ?_⟩
    rwa [update_of_ne hne, heq]
  · exact ⟨m, hm, by rw [update_of_ne heq]⟩

end Vosfs.Counters
