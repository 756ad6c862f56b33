import Mathlib.Data.List.Nodup
import Mathlib.Logic.Function.Basic
import Mathlib.Tactic.Common

/-!
# A lock with the tag of its owner

A binary semaphore used as a lock, with a variable beside it for the tag of the process that
holds it.  The two are not changed together: the tag is written after the P and erased
before the V, and in between other processes may run.  Where each process is in this
protocol is a `Mode`; `Inv` is what holds of semaphore, tag and modes at all times, and each
thing that can happen to the lock preserves it.  A V never blocks.
-/

namespace TaggedLock

universe u v

/-- Where a process is between its P and its V. -/
inductive Mode where
  /-- It has not completed a P, or has issued the V. -/
  | out
  /-- It has completed the P and not yet written its tag. -/
  | entered
  | owner
  /-- It has erased its tag and not yet issued the V. -/
  | leaving
deriving DecidableEq

/-- The tag tells whether the process holds the lock. -/
def Mode.Settled (μ : Mode) : Prop := μ = .out ∨ μ = .owner

instance : DecidablePred Mode.Settled := fun _ ↦ inferInstanceAs (Decidable (_ ∨ _))

variable {π : Type u} {ι : Type v} {tag : π → ι} {nobody : ι} {val : Int} {user : ι}
variable {queue : List π} {mode : π → Mode} {p q : π} {rest : List π}

variable (tag nobody val user queue mode) in
/-- The lock has the value 1 when it is free, and otherwise one process holds it.  Only a P
can be waiting. -/
structure Inv : Prop where
  binary : val = 0 ∨ val = 1
  free : val = 1 → queue = [] ∧ ∀ p, mode p = .out
  taken : val = 0 → ∃ p, mode p ≠ .out
  alone : ∀ p q, mode p ≠ .out → mode q ≠ .out → p = q
  owned : ∀ p, mode p = .owner → user = tag p
  tagged : user = nobody ∨ ∃ p, mode p = .owner ∧ user = tag p
  waits : ∀ p ∈ queue, mode p = .out
  nodup : queue.Nodup

namespace Inv

theorem val_of_held (h : Inv tag nobody val user queue mode) (hp : mode p ≠ .out) : val = 0 :=
  h.binary.resolve_right fun hval ↦ hp ((h.free hval).2 p)

/-- The tag of a process is there exactly while it owns the lock. -/
theorem user_eq_iff (h : Inv tag nobody val user queue mode) (htag : Function.Injective tag)
    (hnobody : ∀ p, tag p ≠ nobody) : user = tag p ↔ mode p = .owner := by
  refine ⟨fun hp ↦ ?_, h.owned p⟩
  rcases h.tagged with he | ⟨q, hq, he⟩
  · exact absurd (hp.symm.trans he) (hnobody p)
  · rwa [htag (hp.symm.trans he)]

theorem user_eq_nobody (h : Inv tag nobody val user queue mode) (hout : ∀ p, mode p ≠ .owner) :
    user = nobody :=
  h.tagged.resolve_right fun ⟨p, hp, _⟩ ↦ hout p hp

theorem user_of_leaving (h : Inv tag nobody val user queue mode) (hp : mode p = .leaving) :
    user = nobody :=
  h.user_eq_nobody fun q hq ↦ by
    obtain rfl := h.alone q p (by rw [hq]; decide) (by rw [hp]; decide)
    cases hq.symm.trans hp

/-- The lock at first. -/
theorem new : Inv tag nobody 1 nobody [] fun _ ↦ .out where
  binary := .inr rfl
  free _ := ⟨rfl, fun _ ↦ rfl⟩
  taken h := by cases h
  alone _ _ h := absurd rfl h
  owned _ h := by cases h
  tagged := .inl rfl
  waits _ h := absurd h List.not_mem_nil
  nodup := .nil

/-- Some processes no longer wait. -/
theorem drop (h : Inv tag nobody val user queue mode) {queue' : List π}
    (hsub : queue'.Sublist queue) : Inv tag nobody val user queue' mode where
  binary := h.binary
  free hval := by
    obtain ⟨hqueue, hout⟩ := h.free hval
    rw [hqueue] at hsub
    exact ⟨List.sublist_nil.mp hsub, hout⟩
  taken := h.taken
  alone := h.alone
  owned := h.owned
  tagged := h.tagged
  waits p hp := h.waits p (hsub.subset hp)
  nodup := h.nodup.sublist hsub

/-- A P blocks. -/
theorem wait (h : Inv tag nobody val user queue mode) (hval : val = 0) (hp : mode p = .out)
    (hnew : p ∉ queue) : Inv tag nobody val user (queue ++ [p]) mode where
  binary := h.binary
  free h1 := by
    rw [hval] at h1
    cases h1
  taken := h.taken
  alone := h.alone
  owned := h.owned
  tagged := h.tagged
  waits q hq := by
    rcases List.mem_append.mp hq with hq | hq
    · exact h.waits q hq
    · rwa [List.mem_singleton.mp hq]
  nodup := by
    refine List.nodup_append.mpr ⟨h.nodup, List.nodup_singleton p, ?_⟩
    rintro a ha b hb rfl
    exact hnew (List.mem_singleton.mp hb ▸ ha)

variable [DecidableEq π]

/-- Whoever is not `p` and holds the lock still holds it. -/
theorem update_ne {μ : Mode} (h : Function.update mode p μ q ≠ .out) (hp : q ≠ p) :
    mode q ≠ .out := by
  rwa [Function.update_of_ne hp] at h

/-- The holder `p` moves on to a mode in which it still holds the lock. -/
theorem move (h : Inv tag nobody val user queue mode) (hp : mode p ≠ .out) {μ : Mode} {user' : ι}
    (hμ : μ ≠ .out) (huser : μ = .owner ∧ user' = tag p ∨ μ ≠ .owner ∧ user' = nobody) :
    Inv tag nobody val user' queue (Function.update mode p μ) := by
  have hall : ∀ q, Function.update mode p μ q ≠ .out → q = p := fun q hq ↦ by
    by_contra hne
    exact hne (h.alone q p (update_ne hq hne) hp)
  have hval := h.val_of_held hp
  refine ⟨h.binary, ?_, ?_, fun q r hq hr ↦ (hall q hq).trans (hall r hr).symm, ?_, ?_, ?_, h.nodup⟩
  · rintro rfl
    cases hval
  · exact fun _ ↦ ⟨p, by rwa [Function.update_self]⟩
  · intro q hq
    obtain rfl := hall q (by rw [hq]; decide)
    rw [Function.update_self] at hq
    exact (huser.resolve_right fun h ↦ h.1 hq).2
  · rcases huser with ⟨hown, he⟩ | ⟨-, he⟩
    · exact .inr ⟨p, by rw [Function.update_self, hown], he⟩
    · exact .inl he
  · intro q hq
    have hne : q ≠ p := fun e ↦ hp (e ▸ h.waits q hq)
    rw [Function.update_of_ne hne]
    exact h.waits q hq

/-- The lock comes to `p`, from nobody. -/
theorem enter (h : Inv tag nobody val user queue mode) (hout : ∀ q, mode q = .out)
    (hq : ∀ q ∈ rest, q ≠ p) (hnodup : rest.Nodup) :
    Inv tag nobody 0 user rest (Function.update mode p .entered) := by
  have hall : ∀ q, Function.update mode p .entered q ≠ .out → q = p := fun q hq ↦ by
    by_contra hne
    exact update_ne hq hne (hout q)
  have hnot : ∀ q, Function.update mode p .entered q ≠ .owner := fun q hq ↦ by
    obtain rfl := hall q (by rw [hq]; decide)
    rw [Function.update_self] at hq
    cases hq
  refine ⟨.inl rfl, fun h ↦ (by cases h), fun _ ↦ ⟨p, by rw [Function.update_self]; decide⟩,
    fun q r hq hr ↦ (hall q hq).trans (hall r hr).symm, fun q h ↦ absurd h (hnot q),
    .inl (h.user_eq_nobody fun q h ↦ ?_), fun q hmem ↦ ?_, hnodup⟩
  · cases (hout q).symm.trans h
  · rw [Function.update_of_ne (hq q hmem)]
    exact hout q

/-- A P takes the free lock. -/
theorem take (h : Inv tag nobody val user queue mode) (hval : val = 1) (p : π) :
    Inv tag nobody 0 user queue (Function.update mode p .entered) := by
  obtain ⟨hqueue, hout⟩ := h.free hval
  rw [hqueue]
  exact h.enter hout (fun q hq ↦ absurd hq List.not_mem_nil) .nil

/-- Nobody holds the lock once the process that leaves it is out. -/
theorem out_of_leaving (h : Inv tag nobody val user queue mode) (hp : mode p = .leaving) (q : π) :
    Function.update mode p .out q = .out := by
  by_cases hne : q = p
  · rw [hne, Function.update_self]
  · rw [Function.update_of_ne hne]
    by_contra hq
    exact hne (h.alone q p hq (by rw [hp]; decide))

/-- A V frees the lock. -/
theorem give (h : Inv tag nobody val user [] mode) (hp : mode p = .leaving) :
    Inv tag nobody 1 user [] (Function.update mode p .out) where
  binary := .inr rfl
  free _ := ⟨rfl, h.out_of_leaving hp⟩
  taken h := by cases h
  alone q _ hq := absurd (h.out_of_leaving hp q) hq
  owned q hq := by cases (h.out_of_leaving hp q).symm.trans hq
  tagged := .inl (h.user_of_leaving hp)
  waits _ hq := absurd hq List.not_mem_nil
  nodup := .nil

/-- A V hands the lock to the first process that waits. -/
theorem handOver (h : Inv tag nobody val user (q :: rest) mode) (hp : mode p = .leaving) :
    Inv tag nobody 0 user rest (Function.update (Function.update mode p .out) q .entered) := by
  obtain ⟨hnew, hnodup⟩ := List.nodup_cons.mp h.nodup
  have hempty : Inv tag nobody 1 user [] (Function.update mode p .out) :=
    Inv.give (h.drop (List.nil_sublist _)) hp
  exact hempty.enter (h.out_of_leaving hp) (fun r hr e ↦ hnew (e ▸ hr)) hnodup

end Inv

end TaggedLock
