import Mathlib.Order.WellFounded

/-!
# Locks taken in order

Locks have ranks, and a process that holds one and waits for another waits for one of a
higher rank.  When there is no infinite ascent of ranks, somebody who holds a lock that is
waited for does not wait: otherwise going from the lock that a process waits for to the one
its holder waits for would never end.
-/

namespace LockOrder

universe u v w

variable {π : Type u} {ι : Type v} {ρ : Type w} [Preorder ρ] [WellFoundedGT ρ]
variable {holds waits : π → ι → Prop} {rank : ι → ρ}

/-- Locks are waited for in the order of their ranks. -/
def Ascending (holds waits : π → ι → Prop) (rank : ι → ρ) : Prop :=
  ∀ p x y, holds p x → waits p y → rank x < rank y

/-- If whoever holds a lock that is waited for waits too, nobody waits. -/
theorem nobody_waits (horder : Ascending holds waits rank)
    (hblocked : ∀ p x, waits p x → ∃ q, holds q x ∧ ∃ y, waits q y) (p : π) (x : ι) :
    ¬ waits p x := by
  intro hp
  -- by induction on the rank of the lock, from above
  induction hr : rank x using WellFoundedGT.induction generalizing p x with
  | ind r ih =>
      obtain ⟨q, hq, y, hy⟩ := hblocked p x hp
      exact ih (rank y) (hr ▸ horder q x y hq hy) q y hy rfl

end LockOrder
