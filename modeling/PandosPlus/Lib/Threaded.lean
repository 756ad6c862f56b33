import Mathlib.Data.List.Nodup
import Mathlib.Logic.Function.Basic

/-!
# Lists threaded through their elements

A doubly linked list whose links are kept at its elements, with `none` for the head that
both ends are linked to.  Elements are added behind the head and removed from there, as on a
stack.
-/

namespace Threaded

universe u

variable {α : Type u} {next prev : Option α → Option α} {a : α} {l : List α} {o : Option α}

/-- The links lead from `o` through the list and back to the head. -/
def Path (next : Option α → Option α) : Option α → List α → Prop
  | o, [] => next o = none
  | o, a :: l => next o = some a ∧ Path next (some a) l

/-- The list that is threaded, as far as a stack needs it. -/
structure Stack (next prev : Option α → Option α) (l : List α) : Prop where
  nodup : l.Nodup
  path : Path next none l
  first : ∀ a, l.head? = some a → prev (some a) = none

theorem Path.next_eq (h : Path next o l) : next o = l.head? := by
  cases l with
  | nil => exact h
  | cons a l => exact h.1

theorem Stack.next_none (h : Stack next prev l) : next none = l.head? := h.path.next_eq

/-- The links lead through one list only. -/
theorem Path.unique {l' : List α} (h : Path next o l) (h' : Path next o l') : l = l' := by
  induction l generalizing o l' with
  | nil =>
      cases l' with
      | nil => rfl
      | cons b l' => cases (show next o = none from h).symm.trans h'.1
  | cons a l ih =>
      cases l' with
      | nil => cases h.1.symm.trans (show next o = none from h')
      | cons b l' =>
          obtain rfl := Option.some.inj (h.1.symm.trans h'.1)
          rw [ih h.2 h'.2]

variable [DecidableEq α]

/-- A link outside the list does not matter. -/
theorem Path.update {o' v : Option α} (h : Path next o l) (ho : o' ≠ o)
    (hl : ∀ a ∈ l, o' ≠ some a) : Path (Function.update next o' v) o l := by
  induction l generalizing o with
  | nil => exact (Function.update_of_ne (Ne.symm ho) ..).trans h
  | cons a l ih =>
      refine ⟨(Function.update_of_ne (Ne.symm ho) ..).trans h.1, ih h.2 ?_ fun b hb ↦ ?_⟩
      · exact hl a List.mem_cons_self
      · exact hl b (List.mem_cons_of_mem a hb)

/-- An element is added. -/
theorem Stack.add (h : Stack next prev l) (ha : a ∉ l) :
    Stack (Function.update (Function.update next (some a) (next none)) none (some a))
      (Function.update (Function.update prev (next none) (some a)) (some a) none) (a :: l) where
  nodup := List.nodup_cons.mpr ⟨ha, h.nodup⟩
  path := by
    refine ⟨Function.update_self .., Path.update ?_ nofun fun _ _ ↦ nofun⟩
    have hpath := h.path
    cases l with
    | nil => exact (Function.update_self ..).trans hpath
    | cons b l =>
        refine ⟨(Function.update_self ..).trans hpath.1, hpath.2.update ?_ fun c hc he ↦ ?_⟩
        · intro he
          exact ha (Option.some.inj he ▸ List.mem_cons_self)
        · exact ha (Option.some.inj he ▸ List.mem_cons_of_mem b hc)
  first b hb := by
    obtain rfl := Option.some.inj hb
    exact Function.update_self ..

/-- The first element is removed. -/
theorem Stack.del (h : Stack next prev (a :: l)) :
    Stack (Function.update next (prev (some a)) (next (some a)))
      (Function.update prev (next (some a)) (prev (some a))) l := by
  obtain ⟨ha, hnodup⟩ := List.nodup_cons.mp h.nodup
  have hprev := h.first a rfl
  have hnext := h.path.2.next_eq
  rw [hprev, hnext]
  refine ⟨hnodup, ?_, fun b hb ↦ ?_⟩
  · have hpath := h.path.2
    cases l with
    | nil => exact Function.update_self ..
    | cons b l =>
        exact ⟨Function.update_self .., hpath.2.update nofun fun _ _ ↦ nofun⟩
  · rw [hb, Function.update_self]

end Threaded
