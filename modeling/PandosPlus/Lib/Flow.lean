/-!
# Programs that may leave for good

Low-level code calls routines that never come back: control is handed to other
code, the machine stops, or an access faults.  Such a program is read in
`EStateM ε σ`: it either returns a value to its caller (`ok`), or it leaves with
a reason in `ε` (`error`); in both cases it hands over the state it has made.
The state written before leaving is kept, which is what distinguishes leaving
from failing.

The lemmas below run a program one statement at a time.  `Returns` and `Leaves`
name the two ways a run can end, and compose along sequencing.
-/

namespace Flow

universe u

variable {ε σ α β : Type u} {m : EStateM ε σ α} {k : α → EStateM ε σ β} {s s' s'' : σ}
variable {a : α} {b : β} {e : ε}

/-- From `s` the program returns `a` to its caller in state `s'`. -/
def Returns (m : EStateM ε σ α) (s : σ) (a : α) (s' : σ) : Prop := m s = .ok a s'

/-- From `s` the program leaves for good with reason `e` in state `s'`. -/
def Leaves (m : EStateM ε σ α) (s : σ) (e : ε) (s' : σ) : Prop := m s = .error e s'

/-! ## Running statements -/

@[simp] theorem pure_run (a : α) (s : σ) : (pure a : EStateM ε σ α) s = .ok a s := rfl

@[simp] theorem get_run (s : σ) : (get : EStateM ε σ σ) s = .ok s s := rfl

@[simp] theorem set_run (s s' : σ) : (set s' : EStateM ε σ PUnit) s = .ok ⟨⟩ s' := rfl

@[simp] theorem modify_run (f : σ → σ) (s : σ) :
    (modify f : EStateM ε σ PUnit) s = .ok ⟨⟩ (f s) := rfl

@[simp] theorem throw_run (e : ε) (s : σ) : (throw e : EStateM ε σ α) s = .error e s := rfl

theorem bind_run (m : EStateM ε σ α) (k : α → EStateM ε σ β) (s : σ) :
    (m >>= k) s = match m s with
      | .ok a s' => k a s'
      | .error e s' => .error e s' := rfl

@[simp] theorem ite_run (c : Prop) [Decidable c] (m m' : EStateM ε σ α) (s : σ) :
    (if c then m else m') s = if c then m s else m' s := by split <;> rfl

/-! ## The two ways to end -/

theorem returns_iff : Returns m s a s' ↔ m s = .ok a s' := Iff.rfl

theorem leaves_iff : Leaves m s e s' ↔ m s = .error e s' := Iff.rfl

theorem Returns.bind_run (h : Returns m s a s') : (m >>= k) s = k a s' := by
  rw [Flow.bind_run, show m s = _ from h]

theorem Returns.bind (h : Returns m s a s') (hk : Returns (k a) s' b s'') :
    Returns (m >>= k) s b s'' := h.bind_run.trans hk

theorem Leaves.bind (h : Leaves m s e s') : Leaves (m >>= k) s e s' := by
  rw [Leaves, Flow.bind_run, show m s = _ from h]

theorem Returns.bind_leaves (h : Returns m s a s') (hk : Leaves (k a) s' e s'') :
    Leaves (m >>= k) s e s'' := h.bind_run.trans hk

/-- A sequence leaves in its first half or in its second. -/
theorem leaves_bind_iff :
    Leaves (m >>= k) s e s'' ↔
      Leaves m s e s'' ∨ ∃ a s', Returns m s a s' ∧ Leaves (k a) s' e s'' := by
  simp only [Leaves, Returns, Flow.bind_run]
  cases m s <;> simp [and_assoc]

/-- A sequence returns exactly when both halves do. -/
theorem returns_bind_iff :
    Returns (m >>= k) s b s'' ↔ ∃ a s', Returns m s a s' ∧ Returns (k a) s' b s'' := by
  simp only [Returns, Flow.bind_run]
  cases m s <;> simp [and_assoc]

/-- Whatever reason the program has to leave, it is one of these. -/
def LeavesOnly (m : EStateM ε σ α) (s : σ) (R : ε → Prop) : Prop := ∀ e s', Leaves m s e s' → R e

section LeavesOnly

variable {R : ε → Prop}

theorem LeavesOnly.of_returns (a : α) (s' : σ) (h : m s = .ok a s') : LeavesOnly m s R := by
  intro e s'' hrun
  cases h.symm.trans hrun

theorem LeavesOnly.of_leaves (h : m s = .error e s') (he : R e) : LeavesOnly m s R := by
  intro e' s'' hrun
  cases h.symm.trans hrun
  exact he

theorem LeavesOnly.of_eq {m' : EStateM ε σ α} (h : m s = m' s') (hm : LeavesOnly m' s' R) :
    LeavesOnly m s R := fun e s'' hrun ↦ hm e s'' (h.symm.trans hrun)

theorem LeavesOnly.bind (h : LeavesOnly m s R)
    (hk : ∀ a s', Returns m s a s' → LeavesOnly (k a) s' R) : LeavesOnly (m >>= k) s R := by
  intro e s'' hrun
  rcases leaves_bind_iff.mp hrun with hleft | ⟨a, s', hret, hright⟩
  · exact h e s'' hleft
  · exact hk a s' hret e s'' hright

end LeavesOnly

/-! ## Loops left in the middle -/

/-- A loop that does nothing up to the first element with a property, and leaves there. -/
theorem forM_find {ι : Type} (P : ι → Bool) (f : ι → EStateM ε σ PUnit) (s : σ) (l : List ι)
    (hskip : ∀ i, P i = false → f i s = .ok ⟨⟩ s)
    (hleave : ∀ i ∈ l, P i = true → ∃ e t, f i s = .error e t) :
    l.forM f s = match l.find? P with
      | none => .ok ⟨⟩ s
      | some i => f i s := by
  induction l with
  | nil => rfl
  | cons i l ih =>
      change (f i >>= fun _ ↦ l.forM f) s = _
      rw [Flow.bind_run, List.find?_cons]
      cases hi : P i with
      | false =>
          rw [hskip i hi]
          exact ih fun j hj ↦ hleave j (List.mem_cons_of_mem _ hj)
      | true =>
          obtain ⟨e, t, hrun⟩ := hleave i List.mem_cons_self hi
          simp only [hrun]

end Flow
