import PandosPlus.Lib.QueueMap
import PandosPlus.Lib.Run
import PandosPlus.Phase1.AslInvariant

/-!
# The active semaphores are a map from keys to queues

Over any sequence of calls, the active semaphore list does what a finite map from keys to
non-empty queues does, with room for `MAXPROC` keys.  A PCB is handed to `insertBlocked`
when it waits nowhere; it makes no difference when it is turned away.
-/

namespace PandosPlus

open Lts SortedList

variable {n : Nat}

/-- The calls a client makes. -/
inductive AslCall (n : Nat) where
  | insertBlocked (semAdd : Word) (p : Fin n)
  | removeBlocked (semAdd : Word)
  | outBlocked (p : Fin n)
  | headBlocked (semAdd : Word)

/-- What a call returns. -/
inductive AslResult (n : Nat) where
  | flag (b : Bool)
  | pcb (p : Option (Fin n))
deriving DecidableEq

/-- A call of the routine. -/
def AslCall.run : AslCall n → NucM n (AslResult n)
  | .insertBlocked semAdd p => do return .flag (← PandosPlus.insertBlocked semAdd (some p))
  | .removeBlocked semAdd => do return .pcb (← PandosPlus.removeBlocked semAdd)
  | .outBlocked p => do return .pcb (← PandosPlus.outBlocked p)
  | .headBlocked semAdd => do return .pcb (PandosPlus.headBlocked semAdd (← get))

/-- The same call on a map from keys to queues. -/
def AslCall.spec (m : QueueMap Word (Fin n)) : AslCall n → AslResult n × QueueMap Word (Fin n)
  | .insertBlocked semAdd p => (.flag (m.insert n semAdd p).1, (m.insert n semAdd p).2)
  | .removeBlocked semAdd => (.pcb (m.remove semAdd).1, (m.remove semAdd).2)
  | .outBlocked p => (.pcb (m.out p).1, (m.out p).2)
  | .headBlocked semAdd => (.pcb (m.head semAdd), m)

/-- `insertBlocked` is called on PCBs that are in no queue, or turns them away. -/
def AslCall.Allowed (m : QueueMap Word (Fin n)) : AslCall n → Prop
  | .insertBlocked semAdd p => (∀ k, p ∉ m.queue k) ∨ semAdd ∉ m.keys ∧ m.keys.card = n
  | _ => True

/-- A call on the list and on the map it stands for. -/
def AslStep (x : Nucleus n × QueueMap Word (Fin n)) (c : AslCall n)
    (y : Nucleus n × QueueMap Word (Fin n)) : Prop :=
  c.Allowed x.2 ∧ (∃ r, c.run x.1 = .ok r y.1) ∧ y.2 = (c.spec x.2).2

/-- The list stands for the map. -/
structure Represents (s : Nucleus n) (m : QueueMap Word (Fin n)) : Prop where
  inv : s.asl.Inv s.semAdd
  queue : ∀ k, m.queue k = s.asl.queue k

variable {s t : Nucleus n} {m : QueueMap Word (Fin n)} {k : Word} {p d : Fin n} {c : AslCall n}
variable {a : Asl n} {sem : Fin n → Option Word}

/-! ## Room for a key -/

namespace Asl.Inv

theorem length (h : a.Inv sem) : a.semd_h.length + a.semdFree_h.length = n := by
  have hperm : (a.semd_h ++ a.semdFree_h).Perm (List.finRange n) := by
    refine List.perm_iff_count.mpr fun d ↦ ?_
    rw [List.count_append, h.partition,
      List.count_eq_one_of_mem (List.nodup_finRange n) (List.mem_finRange d)]
  simpa using hperm.length_eq

/-- A free descriptor is there as long as fewer than `MAXPROC` keys are active. -/
theorem free_eq_nil_iff (h : a.Inv sem) : a.semdFree_h = [] ↔ a.semd_h.length = n := by
  have hlen := h.length
  rw [← List.length_eq_zero_iff]
  omega

end Asl.Inv

namespace Represents

theorem mem_keys_iff (h : Represents s m) : k ∈ m.keys ↔ ∃ d, peekActiveSemaphore k s.asl = some d := by
  rw [m.mem_keys, h.queue, ne_eq, h.inv.queue_eq_nil_iff, ← ne_eq, Option.ne_none_iff_exists']

/-- The keys of the map are those of the active descriptors. -/
theorem card_keys (h : Represents s m) : m.keys.card = s.asl.semd_h.length := by
  have hkeys : m.keys = (s.asl.semd_h.map s.asl.key).toFinset := by
    ext k
    rw [h.mem_keys_iff, List.mem_toFinset, List.mem_map]
    constructor
    · rintro ⟨d, hd⟩
      exact ⟨d, peek_mem hd⟩
    · rintro ⟨d, hd, rfl⟩
      exact ⟨d, h.inv.peek_key hd⟩
  have hnodup : (s.asl.semd_h.map s.asl.key).Nodup :=
    List.pairwise_map.mpr (h.inv.ascending.imp fun hlt ↦ hlt.ne)
  rw [hkeys, List.toFinset_card_of_nodup hnodup, List.length_map]

theorem mem_queue_iff (h : Represents s m) : p ∈ m.queue k ↔ s.semAdd p = some k := by
  rw [h.queue, h.inv.mem_queue]

theorem out_iff (h : Represents s m) : (∃ k ∈ m.keys, p ∈ m.queue k) ↔ s.semAdd p ≠ none := by
  rw [Option.ne_none_iff_exists']
  constructor
  · rintro ⟨k, -, hp⟩
    exact ⟨k, h.mem_queue_iff.mp hp⟩
  · rintro ⟨k, hk⟩
    have hp := h.mem_queue_iff.mpr hk
    exact ⟨k, QueueMap.mem_keys_of_mem hp, hp⟩

/-! ## One call -/

/-- A PCB that waits nowhere is turned away exactly if it needs a key and no room is left. -/
theorem insertBlocked (h : Represents s m) (hp : (AslCall.insertBlocked k p).Allowed m) :
    ∃ t, PandosPlus.insertBlocked k (some p) s = .ok (m.insert n k p).1 t ∧
      Represents t (m.insert n k p).2 ∧ ((m.insert n k p).2 = m → t = s) := by
  by_cases hfull : k ∉ m.keys ∧ m.keys.card = n
  · have hpeek : peekActiveSemaphore k s.asl = none := by
      refine Option.eq_none_iff_forall_not_mem.mpr fun d hd ↦ hfull.1 ?_
      exact h.mem_keys_iff.mpr ⟨d, hd⟩
    have hfree : s.asl.semdFree_h = [] :=
      h.inv.free_eq_nil_iff.mpr (h.card_keys.symm.trans hfull.2)
    have hinit : initSemaphore k s.asl = none := by simp only [initSemaphore, getFreeSemaphore, hfree]
    refine ⟨s, ?_, ?_, fun _ ↦ rfl⟩
    · rw [QueueMap.insert, if_pos hfull]
      simp only [PandosPlus.insertBlocked, Flow.bind_run, Flow.get_run, hpeek, hinit, Flow.pure_run]
    · rw [QueueMap.insert, if_pos hfull]
      exact h
  · have hout := hp.resolve_right hfull
    have hsem : s.semAdd p = none := by
      refine Option.eq_none_iff_forall_not_mem.mpr fun k' hk' ↦ hout k' ?_
      exact h.mem_queue_iff.mpr hk'
    rw [QueueMap.insert, if_neg hfull]
    refine ⟨s.block k p, insertBlocked_run h.inv hsem k, ⟨Nucleus.block_asl h.inv hsem k, ?_⟩,
      fun he ↦ absurd he QueueMap.push_ne⟩
    intro k'
    rw [QueueMap.queue_push, Nucleus.block_queue h.inv hsem, h.queue, h.queue]

/-- The oldest process leaves. -/
theorem removeBlocked (h : Represents s m) :
    ∃ t, PandosPlus.removeBlocked k s = .ok (m.remove k).1 t ∧
      Represents t (m.remove k).2 ∧ ((m.remove k).2 = m → t = s) := by
  cases hq : m.queue k with
  | nil =>
      have hpeek : peekActiveSemaphore k s.asl = none := by
        rw [← h.inv.queue_eq_nil_iff, ← h.queue, hq]
      refine ⟨s, ?_, ?_, fun _ ↦ rfl⟩
      · simp only [PandosPlus.removeBlocked, Flow.bind_run, Flow.get_run, hpeek, Flow.pure_run,
          QueueMap.remove, hq]
      · simp only [QueueMap.remove, hq]
        exact h
  | cons q rest =>
      have hqueue : s.asl.queue k = q :: rest := (h.queue k).symm.trans hq
      have hsem : s.semAdd q = some k := h.mem_queue_iff.mp (by rw [hq]; exact List.mem_cons_self)
      simp only [QueueMap.remove, hq]
      refine ⟨s.unblock k q, removeBlocked_run hqueue, ⟨Nucleus.unblock_asl h.inv hsem, ?_⟩,
        fun he ↦ absurd he (QueueMap.pull_ne (by rw [hq]; exact List.cons_ne_nil q rest))⟩
      intro k'
      rw [QueueMap.queue_pull, Nucleus.unblock_queue h.inv hsem, h.queue, h.queue, hqueue,
        List.erase_cons_head, List.tail_cons]

/-- The process leaves if it waits somewhere. -/
theorem outBlocked (h : Represents s m) :
    ∃ t, PandosPlus.outBlocked p s = .ok (m.out p).1 t ∧
      Represents t (m.out p).2 ∧ ((m.out p).2 = m → t = s) := by
  cases hsem : s.semAdd p with
  | none =>
      have hnot : ¬ ∃ k ∈ m.keys, p ∈ m.queue k := by
        rw [h.out_iff, hsem]
        exact fun hne ↦ hne rfl
      rw [QueueMap.out, if_neg hnot]
      exact ⟨s, outBlocked_run_none hsem, h, fun _ ↦ rfl⟩
  | some k =>
      have hp : p ∈ m.queue k := h.mem_queue_iff.mpr hsem
      rw [QueueMap.out, if_pos ⟨k, QueueMap.mem_keys_of_mem hp, hp⟩]
      refine ⟨s.unblock k p, outBlocked_run h.inv hsem, ⟨Nucleus.unblock_asl h.inv hsem, ?_⟩,
        fun he ↦ absurd he (QueueMap.drop_ne hp)⟩
      intro k'
      rw [QueueMap.queue_drop, Nucleus.unblock_queue h.inv hsem, h.queue]
      split
      · rename_i hk
        rw [hk]
      · rename_i hk
        refine List.erase_of_not_mem fun hp' ↦ hk ?_
        exact Option.some.inj ((h.inv.mem_queue.mp hp').symm.trans hsem)

/-- Every call does to the list what it does to the map, and leaves the list as it is when
it leaves the map as it is. -/
theorem call (h : Represents s m) (hc : c.Allowed m) :
    ∃ t, c.run s = .ok (c.spec m).1 t ∧ Represents t (c.spec m).2 ∧ ((c.spec m).2 = m → t = s) := by
  cases c with
  | insertBlocked k p =>
      obtain ⟨t, hrun, hrep, hsame⟩ := h.insertBlocked hc
      exact ⟨t, by simp only [AslCall.run, Flow.bind_run, hrun, Flow.pure_run, AslCall.spec], hrep, hsame⟩
  | removeBlocked k =>
      obtain ⟨t, hrun, hrep, hsame⟩ := h.removeBlocked (k := k)
      exact ⟨t, by simp only [AslCall.run, Flow.bind_run, hrun, Flow.pure_run, AslCall.spec], hrep, hsame⟩
  | outBlocked p =>
      obtain ⟨t, hrun, hrep, hsame⟩ := h.outBlocked (p := p)
      exact ⟨t, by simp only [AslCall.run, Flow.bind_run, hrun, Flow.pure_run, AslCall.spec], hrep, hsame⟩
  | headBlocked k =>
      refine ⟨s, ?_, h, fun _ ↦ rfl⟩
      simp only [AslCall.run, Flow.bind_run, Flow.get_run, Flow.pure_run, AslCall.spec,
        headBlocked_eq, QueueMap.head, h.queue]

end Represents

/-! ## Every sequence of calls -/

theorem spec_card_le (h : m.keys.card ≤ n) : (c.spec m).2.keys.card ≤ n := by
  cases c with
  | insertBlocked k p => exact QueueMap.card_insert_le h
  | removeBlocked k => exact QueueMap.card_remove_le.trans h
  | outBlocked p => exact QueueMap.card_out_le.trans h
  | headBlocked k => exact h

theorem initASL_represents (hs : ∀ p, s.semAdd p = none) :
    Represents { s with asl := initASL s.asl } .empty := by
  refine ⟨initASL_inv hs, fun k ↦ ?_⟩
  have hnil : (initASL s.asl).queue k = [] := by
    rw [(initASL_inv hs).queue_eq_nil_iff, initASL_eq]
    rfl
  exact hnil.symm

theorem AslStep.represents {x y : Nucleus n × QueueMap Word (Fin n)} (h : Represents x.1 x.2)
    (hstep : AslStep x c y) : Represents y.1 y.2 := by
  obtain ⟨hc, ⟨r, hrun⟩, hspec⟩ := hstep
  obtain ⟨t, hrun', hrep, -⟩ := h.call hc
  cases hrun.symm.trans hrun'
  rwa [hspec]

end PandosPlus
