import Mathlib.Data.Finset.Card
import Mathlib.Data.List.Basic

/-!
# Finite maps to queues

A finite map from keys to non-empty first-in first-out queues.  A key that is absent is
read as the empty queue, so that an entry is what is read at its key, and a queue that
runs empty takes its key with it.

A map may have a capacity, the number of keys it has room for: a value is then turned away
if its key is absent and all the room is taken.
-/

universe u v

/-- A finite map from keys to non-empty queues. -/
structure QueueMap (κ : Type u) (α : Type v) where
  /-- The keys that are present. -/
  keys : Finset κ
  /-- The queue at a key, oldest first. -/
  queue : κ → List α
  mem_keys : ∀ k, k ∈ keys ↔ queue k ≠ []

namespace QueueMap

variable {κ : Type u} {α : Type v} {m : QueueMap κ α} {k k' : κ} {a : α} {l : List α}

/-- No key is present. -/
def empty : QueueMap κ α := ⟨∅, fun _ ↦ [], by simp⟩

/-- The oldest at `k`. -/
def head (k : κ) (m : QueueMap κ α) : Option α := (m.queue k).head?

/-- `a` leaves the queue it is in. -/
def drop [DecidableEq α] (m : QueueMap κ α) (a : α) : QueueMap κ α where
  keys := m.keys.filter fun k ↦ (m.queue k).erase a ≠ []
  queue k := (m.queue k).erase a
  mem_keys k := by
    rw [Finset.mem_filter, m.mem_keys]
    refine and_iff_right_of_imp fun h hnil ↦ h ?_
    rw [hnil]
    rfl

@[simp] theorem queue_empty : (empty : QueueMap κ α).queue k = [] := rfl

@[simp] theorem queue_drop [DecidableEq α] : (m.drop a).queue k = (m.queue k).erase a := rfl

/-- A key with a value in its queue is present. -/
theorem mem_keys_of_mem (h : a ∈ m.queue k) : k ∈ m.keys :=
  (m.mem_keys k).mpr (List.ne_nil_of_mem h)

theorem drop_ne [DecidableEq α] (h : a ∈ m.queue k) : m.drop a ≠ m := by
  intro he
  have hlen := congrArg (fun m ↦ (m.queue k).length) he
  have hpos := List.length_pos_of_mem h
  simp only [queue_drop, List.length_erase_of_mem h] at hlen
  omega

variable [DecidableEq κ]

/-- The map with the queue `l` at `k`. -/
def set (m : QueueMap κ α) (k : κ) (l : List α) : QueueMap κ α where
  keys := if l = [] then m.keys.erase k else Insert.insert k m.keys
  queue k' := if k' = k then l else m.queue k'
  mem_keys k' := by
    by_cases hl : l = [] <;> by_cases hk : k' = k <;> simp [hl, hk, m.mem_keys]

/-- `a` joins the queue at `k`. -/
def push (m : QueueMap κ α) (k : κ) (a : α) : QueueMap κ α := m.set k (m.queue k ++ [a])

/-- The oldest leaves the queue at `k`. -/
def pull (m : QueueMap κ α) (k : κ) : QueueMap κ α := m.set k (m.queue k).tail

/-- `a` joins the queue at `k`, if there is room for `k`; the result tells whether it is
turned away. -/
def insert (capacity : Nat) (k : κ) (a : α) (m : QueueMap κ α) : Bool × QueueMap κ α :=
  if k ∉ m.keys ∧ m.keys.card = capacity then (true, m) else (false, m.push k a)

/-- The oldest at `k`, which leaves. -/
def remove (k : κ) (m : QueueMap κ α) : Option α × QueueMap κ α :=
  match m.queue k with
  | [] => (none, m)
  | a :: _ => (some a, m.pull k)

/-- `a`, which leaves if it is in a queue. -/
def out [DecidableEq α] (a : α) (m : QueueMap κ α) : Option α × QueueMap κ α :=
  if ∃ k ∈ m.keys, a ∈ m.queue k then (some a, m.drop a) else (none, m)

theorem keys_set : (m.set k l).keys = if l = [] then m.keys.erase k else Insert.insert k m.keys :=
  rfl

@[simp] theorem queue_set : (m.set k l).queue k' = if k' = k then l else m.queue k' := rfl

@[simp] theorem queue_push :
    (m.push k a).queue k' = if k' = k then m.queue k ++ [a] else m.queue k' := rfl

@[simp] theorem queue_pull :
    (m.pull k).queue k' = if k' = k then (m.queue k).tail else m.queue k' := rfl

theorem push_ne : m.push k a ≠ m := by
  intro h
  have hlen := congrArg (fun m ↦ (m.queue k).length) h
  simp at hlen

theorem pull_ne (h : m.queue k ≠ []) : m.pull k ≠ m := by
  intro he
  have hlen := congrArg (fun m ↦ (m.queue k).length) he
  have hpos := List.length_pos_iff.mpr h
  simp at hlen
  omega

/-! ## Capacity -/

theorem card_set_le : (m.set k l).keys.card ≤ m.keys.card + 1 := by
  rw [keys_set]
  split
  · exact (Finset.card_erase_le).trans (Nat.le_succ _)
  · exact Finset.card_insert_le k m.keys

theorem card_push_of_mem (h : k ∈ m.keys) : (m.push k a).keys = m.keys := by
  simp [push, keys_set, h]

theorem card_insert_le {capacity : Nat} (h : m.keys.card ≤ capacity) :
    (m.insert capacity k a).2.keys.card ≤ capacity := by
  unfold insert
  split
  · exact h
  · rename_i hroom
    by_cases hk : k ∈ m.keys
    · rwa [card_push_of_mem hk]
    · have hne : m.keys.card ≠ capacity := fun hcard ↦ hroom ⟨hk, hcard⟩
      exact card_set_le.trans (by omega)

theorem card_pull_le (h : m.queue k ≠ []) : (m.pull k).keys.card ≤ m.keys.card := by
  rw [pull, keys_set]
  split
  · exact Finset.card_erase_le
  · rw [Finset.insert_eq_of_mem ((m.mem_keys k).mpr h)]

theorem card_remove_le : (m.remove k).2.keys.card ≤ m.keys.card := by
  unfold remove
  split
  · exact le_rfl
  · rename_i a l hq
    exact card_pull_le (by rw [hq]; exact List.cons_ne_nil a l)

omit [DecidableEq κ] in
theorem card_out_le [DecidableEq α] : (m.out a).2.keys.card ≤ m.keys.card := by
  unfold out
  split
  · exact Finset.card_filter_le _ _
  · exact le_rfl

end QueueMap
