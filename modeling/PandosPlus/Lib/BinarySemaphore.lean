import Mathlib.Data.List.Basic
import Mathlib.Logic.Function.Basic
import Mathlib.Tactic.Common

/-!
# The law of binary semaphores

A binary semaphore has the value 0 or 1.  A P waits for it to be 1 and a V for it to be
0, so both calls may block.  A call that does not block lets the first of the waiting
calls go, and without one changes the value.

A `Ledger` keeps the books of the calls made on one semaphore by processes of any kind:
how many have completed, which ones wait, in the order they blocked, and the tickets of
those released and of those whose caller was killed.  Tickets are given out in the order
the calls block.  `Law` is what holds of value and ledger at all times: each thing that
can happen to the semaphore preserves it.
-/

namespace BinarySemaphore

universe u

/-- The two calls. -/
inductive Call where
  | P
  | V
deriving DecidableEq, Repr

/-- The value at which a call blocks, and which it leaves when it changes the value. -/
def Call.full : Call → Nat
  | .P => 0
  | .V => 1

/-- A call that has blocked. -/
structure Waiter (π : Type u) where
  process : π
  call : Call
  ticket : Nat

/-- The books of a semaphore. -/
structure Ledger (π : Type u) where
  /-- How many calls of each kind have completed. -/
  done : Call → Nat
  /-- The calls that wait, in the order they blocked. -/
  waiting : List (Waiter π)
  /-- The next ticket. -/
  next : Nat
  /-- The tickets of the calls released, in the order of their release. -/
  released : List Nat
  /-- The tickets of the calls whose caller was killed. -/
  killed : List Nat

variable {π : Type u} {v v₀ : Nat} {g : Ledger π} {o : Call} {w : Waiter π} {rest : List (Waiter π)}

namespace Ledger

/-- No call has been made. -/
def new : Ledger π := ⟨fun _ ↦ 0, [], 0, [], []⟩

/-- A call completes without blocking. -/
def complete (o : Call) (g : Ledger π) : Ledger π :=
  { g with done := fun o' ↦ if o' = o then g.done o' + 1 else g.done o' }

/-- A call blocks. -/
def wait (p : π) (o : Call) (g : Ledger π) : Ledger π :=
  { g with waiting := g.waiting ++ [⟨p, o, g.next⟩], next := g.next + 1 }

/-- Some processes no longer wait: those that are `dead` have been killed, and the calls
of the others complete. -/
def settle (still dead : π → Bool) (g : Ledger π) : Ledger π :=
  let gone := g.waiting.filter fun w ↦ !still w.process
  let back := gone.filter fun w ↦ !dead w.process
  { g with
    done := fun o ↦ g.done o + back.countP fun w ↦ w.call = o
    waiting := g.waiting.filter fun w ↦ still w.process
    released := g.released ++ back.map Waiter.ticket
    killed := g.killed ++ (gone.filter fun w ↦ dead w.process).map Waiter.ticket }

variable {still dead : π → Bool}

/-- Every process still waits. -/
theorem settle_still (h : ∀ w ∈ g.waiting, still w.process = true) : g.settle still dead = g := by
  have hgone : g.waiting.filter (fun w ↦ !still w.process) = [] :=
    List.filter_eq_nil_iff.mpr fun w hw ↦ by simp [h w hw]
  have hkeep : g.waiting.filter (fun w ↦ still w.process) = g.waiting :=
    List.filter_eq_self.mpr h
  simp [settle, hgone, hkeep]

variable (still dead) in
/-- The first process has been released. -/
theorem settle_head (hw : g.waiting = w :: rest) (hgone : still w.process = false)
    (halive : dead w.process = false) (hrest : ∀ w' ∈ rest, still w'.process = true) :
    g.settle still dead = { g.complete w.call with
      waiting := rest, released := g.released ++ [w.ticket] } := by
  have hleft : rest.filter (fun w ↦ !still w.process) = [] :=
    List.filter_eq_nil_iff.mpr fun w' hw' ↦ by simp [hrest w' hw']
  have hkeep : rest.filter (fun w ↦ still w.process) = rest := List.filter_eq_self.mpr hrest
  have hdone : ∀ o, (g.done o + if w.call = o then 1 else 0) =
      if o = w.call then g.done o + 1 else g.done o := by
    intro o
    by_cases ho : w.call = o
    · simp [ho]
    · simp [ho, Ne.symm ho]
  simp [settle, complete, hw, hgone, halive, hleft, hkeep, List.countP_cons, hdone]

end Ledger

/-- The law of a semaphore whose first value was `v₀`. -/
structure Law (v₀ v : Nat) (g : Ledger π) : Prop where
  binary : v ≤ 1
  /-- The value counts the calls that have completed. -/
  balance : v + g.done .P = v₀ + g.done .V
  /-- Every call that waits waits for the value to change. -/
  kind : ∀ w ∈ g.waiting, w.call.full = v
  /-- Calls wait in the order they blocked. -/
  ascending : (g.waiting.map Waiter.ticket).Pairwise (· < ·)
  fresh : ∀ w ∈ g.waiting, w.ticket < g.next
  /-- Calls are released in the order they blocked. -/
  released : g.released.Pairwise (· < ·)
  /-- No call is overtaken. -/
  first : ∀ j ∈ g.released, j < g.next ∧ ∀ w ∈ g.waiting, j < w.ticket
  /-- Every call that has blocked was released or killed, or still waits. -/
  settled : ∀ j < g.next, j ∈ g.released ∨ j ∈ g.killed ∨ ∃ w ∈ g.waiting, w.ticket = j

namespace Law

theorem new (hv : v₀ ≤ 1) : Law v₀ v₀ (.new : Ledger π) where
  binary := hv
  balance := rfl
  kind := by intro w hw; cases hw
  ascending := .nil
  fresh := by intro w hw; cases hw
  released := .nil
  first := by intro j hj; cases hj
  settled := by intro j hj; cases hj

/-- Released calls were not overtaken: those before them are settled. -/
theorem fifo (h : Law v₀ v g) {i j : Nat} (hj : j ∈ g.released) (hi : i < j) :
    i ∈ g.released ∨ i ∈ g.killed := by
  obtain ⟨hnext, hfirst⟩ := h.first j hj
  rcases h.settled i (Nat.lt_trans hi hnext) with hr | hk | ⟨w, hw, rfl⟩
  · exact .inl hr
  · exact .inr hk
  · exact absurd (hfirst w hw) (by omega)

theorem full_eq (h : v ≤ 1) (ho : v ≠ o.full) : v = 1 - o.full := by
  cases o <;> simp only [Call.full] at ho ⊢ <;> omega

/-- A call that finds no one waiting changes the value. -/
theorem complete (h : Law v₀ v g) (ho : v ≠ o.full) (hw : g.waiting = []) :
    Law v₀ o.full (g.complete o) := by
  have hv := full_eq h.binary ho
  have hbalance := h.balance
  refine { h with binary := ?_, balance := ?_, kind := fun w hw' ↦ ?_ }
  · cases o <;> simp [Call.full]
  · cases o <;> simp [Ledger.complete, Call.full] at hv ⊢ <;> omega
  · have hw' : w ∈ g.waiting := hw'
    rw [hw] at hw'
    cases hw'

/-- A call that finds another waiting lets it go: both complete. -/
theorem release (h : Law v₀ v g) (ho : v ≠ o.full) (hw : g.waiting = w :: rest) :
    Law v₀ v (({ g.complete w.call with
      waiting := rest, released := g.released ++ [w.ticket] } : Ledger π).complete o) := by
  have hmem : w ∈ g.waiting := by rw [hw]; exact List.mem_cons_self
  have hrest : ∀ w' ∈ rest, w' ∈ g.waiting := fun w' hw' ↦ by
    rw [hw]
    exact List.mem_cons_of_mem _ hw'
  have hkind := h.kind w hmem
  have hasc := h.ascending
  rw [hw, List.map_cons, List.pairwise_cons] at hasc
  refine ⟨h.binary, ?_, fun w' hw' ↦ h.kind w' (hrest w' hw'), hasc.2,
    fun w' hw' ↦ h.fresh w' (hrest w' hw'), ?_, fun j hj ↦ ?_, fun j hj ↦ ?_⟩
  · -- the two calls are of different kinds
    have hbalance := h.balance
    cases o <;> cases hcall : w.call <;> simp [Ledger.complete, Call.full, hcall] at hkind ho ⊢ <;>
      omega
  · refine List.pairwise_append.mpr ⟨h.released, List.pairwise_singleton _ _, fun i hi j hj ↦ ?_⟩
    rw [List.mem_singleton.mp hj]
    exact (h.first i hi).2 w hmem
  · rcases List.mem_append.mp hj with hj | hj
    · exact ⟨(h.first j hj).1, fun w' hw' ↦ (h.first j hj).2 w' (hrest w' hw')⟩
    · rw [List.mem_singleton.mp hj]
      exact ⟨h.fresh w hmem, fun w' hw' ↦ hasc.1 _ (List.mem_map_of_mem hw')⟩
  · rcases h.settled j hj with hr | hk | ⟨w', hw', rfl⟩
    · exact .inl (List.mem_append_left _ hr)
    · exact .inr (.inl hk)
    · rw [hw] at hw'
      rcases List.mem_cons.mp hw' with rfl | hw'
      · exact .inl (List.mem_append_right _ (List.mem_singleton_self _))
      · exact .inr (.inr ⟨w', hw', rfl⟩)

/-- A call blocks. -/
theorem wait (h : Law v₀ v g) (ho : v = o.full) (p : π) : Law v₀ v (g.wait p o) where
  binary := h.binary
  balance := h.balance
  kind w hw := by
    rcases List.mem_append.mp hw with hw | hw
    · exact h.kind w hw
    · rw [List.mem_singleton.mp hw]
      exact ho.symm
  ascending := by
    rw [Ledger.wait, List.map_append]
    refine List.pairwise_append.mpr ⟨h.ascending, List.pairwise_singleton _ _, fun i hi j hj ↦ ?_⟩
    obtain ⟨w, hw, rfl⟩ := List.mem_map.mp hi
    rw [List.mem_singleton.mp hj]
    exact h.fresh w hw
  fresh w hw := by
    rcases List.mem_append.mp hw with hw | hw
    · exact Nat.lt_succ_of_lt (h.fresh w hw)
    · rw [List.mem_singleton.mp hw]
      exact Nat.lt_succ_self _
  released := h.released
  first j hj := by
    obtain ⟨hnext, hfirst⟩ := h.first j hj
    refine ⟨Nat.lt_succ_of_lt hnext, fun w hw ↦ ?_⟩
    rcases List.mem_append.mp hw with hw | hw
    · exact hfirst w hw
    · rw [List.mem_singleton.mp hw]
      exact hnext
  settled j hj := by
    rcases Nat.lt_succ_iff_lt_or_eq.mp hj with hj | rfl
    · rcases h.settled j hj with hr | hk | ⟨w, hw, rfl⟩
      · exact .inl hr
      · exact .inr (.inl hk)
      · exact .inr (.inr ⟨w, List.mem_append_left _ hw, rfl⟩)
    · exact .inr (.inr ⟨_, List.mem_append_right _ (List.mem_singleton_self _), rfl⟩)

/-- Some of the callers that wait are killed. -/
theorem kill (h : Law v₀ v g) {still dead : π → Bool}
    (hdead : ∀ w ∈ g.waiting, still w.process = false → dead w.process = true) :
    Law v₀ v (g.settle still dead) := by
  have hback : (g.waiting.filter fun w ↦ !still w.process).filter (fun w ↦ !dead w.process) = [] := by
    refine List.filter_eq_nil_iff.mpr fun w hw ↦ ?_
    obtain ⟨hw, hstill⟩ := List.mem_filter.mp hw
    simp [hdead w hw (by simpa using hstill)]
  have hsettle : g.settle still dead = { g with
      waiting := g.waiting.filter fun w ↦ still w.process
      killed := g.killed ++ ((g.waiting.filter fun w ↦ !still w.process).filter fun w ↦
        dead w.process).map Waiter.ticket } := by
    simp [Ledger.settle, hback]
  have hmem : ∀ w ∈ g.waiting.filter (fun w ↦ still w.process), w ∈ g.waiting :=
    fun w hw ↦ (List.mem_filter.mp hw).1
  rw [hsettle]
  refine ⟨h.binary, h.balance, fun w hw ↦ h.kind w (hmem w hw),
    h.ascending.sublist (List.filter_sublist.map _), fun w hw ↦ h.fresh w (hmem w hw), h.released,
    fun j hj ↦ ⟨(h.first j hj).1, fun w hw ↦ (h.first j hj).2 w (hmem w hw)⟩, fun j hj ↦ ?_⟩
  rcases h.settled j hj with hr | hk | ⟨w, hw, rfl⟩
  · exact .inl hr
  · exact .inr (.inl (List.mem_append_left _ hk))
  · cases hstill : still w.process with
    | true => exact .inr (.inr ⟨w, List.mem_filter.mpr ⟨hw, hstill⟩, rfl⟩)
    | false =>
        refine .inr (.inl (List.mem_append_right _ (List.mem_map_of_mem ?_)))
        refine List.mem_filter.mpr ⟨List.mem_filter.mpr ⟨hw, by simp [hstill]⟩, ?_⟩
        exact hdead w hw hstill

end Law

end BinarySemaphore
