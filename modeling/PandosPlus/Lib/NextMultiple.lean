import Mathlib.Order.Bounds.Basic
import Mathlib.Data.Int.Order.Basic
import Mathlib.Algebra.Ring.Int.Defs
import Mathlib.Tactic.Common

/-!
# The next multiple

`NextMultiple d r m` says that `m` is the first multiple of `d` after `r`.  A countdown from
`r` that is to end there starts from a number between 1 and `d`.  With a remainder that
rounds towards zero, `d - r.tmod d` is that number when `r` is not negative, or a multiple
itself, and is greater than `d` otherwise.
-/

namespace Alignment

variable {d r m m' : Int}

/-- `m` is the first multiple of `d` that is greater than `r`. -/
def NextMultiple (d r m : Int) : Prop := IsLeast {x | d ∣ x ∧ r < x} m

theorem nextMultiple_iff (hd : 0 < d) :
    NextMultiple d r m ↔ d ∣ m ∧ r < m ∧ m ≤ r + d := by
  constructor
  · rintro ⟨⟨hdvd, hlt⟩, hleast⟩
    refine ⟨hdvd, hlt, ?_⟩
    by_contra hgt
    have hprev : m ≤ m - d := hleast ⟨Int.dvd_sub hdvd (Int.dvd_refl d), by omega⟩
    omega
  · rintro ⟨hdvd, hlt, hle⟩
    refine ⟨⟨hdvd, hlt⟩, fun x hx ↦ ?_⟩
    obtain ⟨hxd, hx⟩ := hx
    by_contra hgt
    have := Int.le_of_dvd (by omega) (Int.dvd_sub hdvd hxd)
    omega

theorem NextMultiple.eq (h : NextMultiple d r m) (h' : NextMultiple d r m') : m = m' :=
  IsLeast.unique h h'

/-! ## Counting down from a remainder -/

/-- The countdown always ends at a multiple. -/
theorem dvd_add_sub_tmod (d r : Int) : d ∣ r + (d - r.tmod d) := by
  have hsplit : r + (d - r.tmod d) = d * r.tdiv d + d := by
    have := Int.mul_tdiv_add_tmod r d
    omega
  rw [hsplit]
  exact Int.dvd_add (Int.dvd_mul_right d _) (Int.dvd_refl d)

theorem one_le_sub_tmod (hd : 0 < d) : 1 ≤ d - r.tmod d := by
  have := Int.tmod_lt_of_pos r hd
  omega

/-- The remainder of a negative number is negative, unless it is zero. -/
theorem sub_tmod_le_iff (d r : Int) : d - r.tmod d ≤ d ↔ 0 ≤ r ∨ d ∣ r := by
  constructor
  · intro hle
    rcases Int.lt_or_le r 0 with hneg | hpos
    · right
      have hneg' := Int.tmod_nonneg d (a := -r) (by omega)
      rw [Int.neg_tmod] at hneg'
      exact Int.dvd_of_tmod_eq_zero (by omega)
    · exact .inl hpos
  · rintro (hpos | hdvd)
    · have := Int.tmod_nonneg d hpos
      omega
    · rw [Int.tmod_eq_zero_of_dvd hdvd]
      omega

theorem nextMultiple_sub_tmod_iff (hd : 0 < d) :
    NextMultiple d r (r + (d - r.tmod d)) ↔ 0 ≤ r ∨ d ∣ r := by
  have hpos : 1 ≤ d - r.tmod d := one_le_sub_tmod hd
  rw [nextMultiple_iff hd, ← sub_tmod_le_iff d r]
  constructor
  · rintro ⟨-, -, hle⟩
    omega
  · intro hle
    exact ⟨dvd_add_sub_tmod d r, by omega, by omega⟩

end Alignment
