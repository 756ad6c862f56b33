import PandosPlus.Phase2.Reach

/-!
# No process is lost

The invariant allows a PCB to be in no list at all when it carries the reserved pid: it
is then dropped where it was to be made ready.  If no PCB has been given that pid, every
PCB is in exactly one place.
-/

namespace PandosPlus

open Lts

variable {n : Nat} {cfg : Config n} {s : Nucleus n} {p : Fin n}

/-- Every PCB is in one place, and its fields agree with it. -/
structure OnePlace (s : Nucleus n) : Prop where
  /-- The free list, a ready queue, the queue of one active semaphore, or the processor. -/
  place : ∀ p, s.pcbFree_h.count p + s.low_readyqueue.count p + s.high_readyqueue.count p +
    (s.asl.semd_h.flatMap s.asl.procQ).count p + s.curr_process.toList.count p = 1
  /-- A ready process is in the queue of its priority. -/
  ready : ∀ prio, ∀ p ∈ s.readyQueue prio, (s.pcbFree_table p).p_prio = prio
  /-- `p_semAdd` is the key of the semaphore the process is blocked on. -/
  blocked : ∀ p k, (s.pcbFree_table p).p_semAdd = some k ↔
    ∃ d ∈ s.asl.semd_h, s.asl.key d = k ∧ p ∈ s.asl.procQ d
  /-- The current process is neither dead nor ready nor blocked. -/
  running : ∀ p, s.curr_process = some p → p ∉ s.pcbFree_h ∧ (∀ prio, p ∉ s.readyQueue prio) ∧
    (s.pcbFree_table p).p_semAdd = none
  /-- `process_count` counts the PCBs that are not free. -/
  count : s.process_count.toNat = (Finset.univ.filter (· ∉ s.pcbFree_h)).card

/-- A blocked process is in the queue of one active semaphore. -/
theorem Asl.Inv.count_flatMap {a : Asl n} {sem : Fin n → Option Word} (h : a.Inv sem)
    (p : Fin n) : (a.semd_h.flatMap a.procQ).count p = (sem p).toList.length := by
  have hdisj : a.semd_h.Pairwise (Function.onFun List.Disjoint a.procQ) := by
    refine h.ascending.imp_of_mem fun {d d'} hd hd' hlt q hq hq' ↦ ?_
    have hk := (h.blocked q (a.key d)).mpr ⟨d, hd, rfl, hq⟩
    have hk' := (h.blocked q (a.key d')).mpr ⟨d', hd', rfl, hq'⟩
    rw [hk] at hk'
    exact hlt.ne (Option.some.inj hk')
  have hnodup : (a.semd_h.flatMap a.procQ).Nodup := List.nodup_flatMap.mpr ⟨h.nodup, hdisj⟩
  cases hp : sem p with
  | none =>
      refine List.count_eq_zero.mpr fun hmem ↦ ?_
      obtain ⟨d, hd, hpd⟩ := List.mem_flatMap.mp hmem
      rw [(h.blocked p (a.key d)).mpr ⟨d, hd, rfl, hpd⟩] at hp
      cases hp
  | some k =>
      obtain ⟨d, hd, -, hpd⟩ := (h.blocked p k).mp hp
      exact List.count_eq_one_of_mem hnodup (List.mem_flatMap.mpr ⟨d, hd, hpd⟩)

theorem Core.onePlace (h : Core s s.curr_process.toList) : OnePlace s where
  place p := by
    have hp := h.place p
    rw [h.asl.count_flatMap]
    unfold Nucleus.readies Nucleus.waits at hp
    omega
  ready := h.prio
  blocked := h.asl.blocked
  running p hp := by
    have hheld : p ∈ s.curr_process.toList := Option.mem_toList.mpr hp
    obtain ⟨hfree, -, hsem, -⟩ := h.of_held hheld
    exact ⟨hfree, fun prio hready ↦ (h.of_ready hready).2.2 hheld, hsem⟩
  count := by
    have hcount := h.count
    have hfree : (Finset.univ.filter (· ∈ s.pcbFree_h)).card = s.pcbFree_h.length := by
      rw [← List.toFinset_card_of_nodup h.pids.free_nodup]
      exact congrArg Finset.card (Finset.ext fun p ↦ by simp)
    have hall := Finset.card_filter_add_card_filter_not (s := Finset.univ) (· ∈ s.pcbFree_h)
    rw [Finset.card_univ, Fintype.card_fin, hfree] at hall
    omega

/-- A process that is lost carries the reserved pid. -/
theorem Inv.sound (h : Inv cfg s) (hpid : NoReservedPid s) :
    Sound cfg s.curr_process.toList s := by
  obtain ⟨lost, hlost, hsound⟩ := h
  cases lost with
  | nil => rwa [List.append_nil] at hsound
  | cons p l =>
      have hp : p ∈ s.curr_process.toList ++ p :: l := by simp
      have hfree := (hsound.core.of_held hp).1
      exact absurd (hlost p List.mem_cons_self) (hpid p hfree)

/-- In every reachable state, every PCB is in exactly one place. -/
theorem reachable_onePlace (h : Reachable (Start cfg) (NucStep cfg) s) (hpid : NoReservedPid s) :
    OnePlace s := ((reachable_inv h).sound hpid).core.onePlace

/-- A process creates two others, which block and are killed in turn. -/
theorem reachable_onePlace_sample :
    ∃ s : Nucleus 3, s.pcbFree_h.length = 1 ∧ OnePlace s := by
  let cfg := Config.sample 3 (by decide) .faults
  obtain ⟨s, hs, hlen, hpid⟩ := execute_reachable cfg
    (P := fun s ↦ s.pcbFree_h.length = 1 ∧ NoReservedPid s)
    [.call CREATEPROCESS 0x20003000 1 0, .call CREATEPROCESS 0x20003000 0 0, .call YIELD 0 0 0,
      .call PASSEREN 0x20004000 0 0, .call TERMPROCESS 2 0 0] (by decide +kernel)
  exact ⟨s, hlen, reachable_onePlace hs hpid⟩

end PandosPlus
