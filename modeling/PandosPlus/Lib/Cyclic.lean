import Mathlib.Data.Fin.Basic
import Mathlib.Algebra.Group.Fin.Basic
import Mathlib.Algebra.GroupWithZero.Nat

/-!
# Going round a ring of places

The places `0, …, n - 1` are visited in turn, `0` following `n - 1`: `f - c` is then the
number of steps from `c` to `f`.  A scan looks for the next place with a property, and gives up
after one turn, where it started.  A hand that moves on by one place at each use comes back
to a place only after all the others.
-/

namespace Cyclic

variable {n : Nat} [NeZero n] {P : Fin n → Prop} {c f g : Fin n}

/-- `f` is the first place with the property `P`, from `c` on. -/
def FirstFrom (P : Fin n → Prop) (c f : Fin n) : Prop :=
  P f ∧ ∀ g, P g → f - c ≤ g - c

theorem FirstFrom.eq (hf : FirstFrom P c f) (hg : FirstFrom P c g) : f = g :=
  sub_left_inj.mp (Fin.le_antisymm (hf.2 g hg.1) (hg.2 f hf.1))

theorem FirstFrom.here (hc : P c) : FirstFrom P c c := by
  refine ⟨hc, fun g _ ↦ ?_⟩
  rw [sub_self]
  exact Fin.zero_le _

/-- A place other than `c` is one step nearer to the place after `c`. -/
theorem sub_succ_val (h : g ≠ c) : (g - (c + 1)).val + 1 = (g - c).val := by
  have hne : g - c ≠ 0 := sub_ne_zero.mpr h
  have hpos : (g - c).val ≠ 0 := fun h0 ↦ hne (Fin.ext h0)
  rw [← sub_sub, Fin.val_sub_one_of_ne_zero hne]
  exact Nat.succ_pred_eq_of_ne_zero hpos

theorem FirstFrom.back (hc : ¬ P c) (hf : FirstFrom P (c + 1) f) : FirstFrom P c f := by
  have hne : ∀ {g}, P g → g ≠ c := by
    rintro g hg rfl
    exact hc hg
  refine ⟨hf.1, fun g hg ↦ ?_⟩
  have hle := Fin.le_def.mp (hf.2 g hg)
  rw [Fin.le_def, ← sub_succ_val (hne hf.1), ← sub_succ_val (hne hg)]
  exact Nat.add_le_add_right hle 1

/-! ## Scanning -/

/-- Where a scan for `P` stops that takes as many steps at most. -/
def scan (P : Fin n → Prop) [DecidablePred P] : Nat → Fin n → Fin n
  | 0, c => c
  | steps + 1, c => if P c then c else scan P steps (c + 1)

variable [DecidablePred P]

/-- A scan finds the first place with the property, unless all of them are further away
than the steps it takes. -/
theorem scan_spec (steps : Nat) (c : Fin n) :
    FirstFrom P c (scan P steps c) ∨
      scan P steps c = c + Fin.ofNat n steps ∧ ∀ g, P g → steps ≤ (g - c).val := by
  induction steps generalizing c with
  | zero =>
      right
      refine ⟨?_, fun g _ ↦ Nat.zero_le _⟩
      exact (add_zero c).symm
  | succ steps ih =>
      by_cases hc : P c
      · left
        rw [scan, if_pos hc]
        exact .here hc
      · rw [scan, if_neg hc]
        rcases ih (c + 1) with hfirst | ⟨hend, hfar⟩
        · exact .inl (hfirst.back hc)
        · right
          constructor
          · rw [hend, add_assoc]
            congr 1
            apply Fin.ext
            simp [Fin.val_add, Nat.add_comm]
          · intro g hg
            have hne : g ≠ c := by
              rintro rfl
              exact hc hg
            rw [← sub_succ_val hne]
            exact Nat.succ_le_succ (hfar g hg)

theorem scan_firstFrom (h : P g) : FirstFrom P c (scan P n c) := by
  rcases scan_spec (P := P) n c with hfirst | ⟨_, hfar⟩
  · exact hfirst
  · exact absurd (hfar g h) (Nat.not_le_of_lt (g - c).isLt)

theorem scan_none (h : ∀ g, ¬ P g) : scan P n c = c := by
  rcases scan_spec (P := P) n c with hfirst | ⟨hend, _⟩
  · exact absurd hfirst.1 (h _)
  · rw [hend]
    have hturn : Fin.ofNat n n = 0 := Fin.ext (Nat.mod_self _)
    rw [hturn, add_zero]

/-! ## Moving on by one place at a time -/

/-- The hand moves on by one place between one use and the next, at the first `uses` uses. -/
def MovesOn (uses : Nat) (x : Nat → Fin n) : Prop := ∀ i, i + 1 < uses → x (i + 1) = x i + 1

theorem MovesOn.add {uses : Nat} {x : Nat → Fin n} (h : MovesOn uses x) {i d : Nat}
    (hlt : i + d < uses) : x (i + d) = x i + Fin.ofNat n d := by
  induction d with
  | zero => exact (add_zero _).symm
  | succ d ih =>
      rw [← Nat.add_assoc, h (i + d) hlt, ih (by omega), add_assoc]
      congr 1
      apply Fin.ext
      simp [Fin.val_add]

/-- The hand comes back to a place only after it has been at every other one. -/
theorem MovesOn.between {uses : Nat} {x : Nat → Fin n} (h : MovesOn uses x) {i j : Nat}
    (hij : i < j) (hj : j < uses) (heq : x j = x i) (hf : f ≠ x i) :
    ∃ l, i < l ∧ l < j ∧ x l = f := by
  obtain ⟨d, rfl⟩ := Nat.exists_eq_add_of_lt hij
  have hback : Fin.ofNat n (d + 1) = 0 := by
    rw [Nat.add_assoc, h.add (by omega)] at heq
    exact add_eq_left.mp heq
  have hturn : n ≤ d + 1 :=
    Nat.le_of_dvd d.succ_pos (Nat.dvd_of_mod_eq_zero (congrArg Fin.val hback))
  -- `f` is passed after the steps that lead to it
  have hsteps : (f - x i).val ≠ 0 := fun h0 ↦ sub_ne_zero.mpr hf (Fin.ext h0)
  have hlt := (f - x i).isLt
  refine ⟨i + (f - x i).val, by omega, by omega, ?_⟩
  rw [h.add (by omega)]
  have hval : Fin.ofNat n (f - x i).val = f - x i := Fin.ext (Nat.mod_eq_of_lt hlt)
  rw [hval, add_sub_cancel]

end Cyclic
