import PandosPlus.Phase2.Family
import PandosPlus.Phase2.SoftBlocked

/-!
# Termination

What `_killProcess` does, seen from outside: the process and its descendants are taken
from every queue and freed, the counters follow, and nothing else changes.  A caller of
TERMPROCESS that is among them is not resumed.
-/

namespace PandosPlus

open Flow Lts

variable {n : Nat}

/-- `p` and its descendants, which are `K`, have been terminated. -/
structure Terminated (cfg : Config n) (p : Fin n) (K : List (Fin n)) (s t : Nucleus n) : Prop where
  members : ∀ q, q ∈ K ↔ s.Descends p q
  alive : ∀ q ∈ K, q ∉ s.pcbFree_h
  /-- Each of them ends in the free list, once. -/
  freed : t.pcbFree_h = K.reverse ++ s.pcbFree_h ∧ K.Nodup
  /-- They are in no other list and no tree. -/
  gone : ∀ q ∈ K, q ∉ t.pid_list_h ∧ (∀ pr, q ∉ t.readyQueue pr) ∧ (∀ k, q ∉ t.asl.queue k) ∧
    (∀ c, q ∉ t.children c) ∧ t.semAdd q = none ∧ t.parent q = none ∧ t.children q = []
  count : s.process_count.toNat = t.process_count.toNat + K.length
  soft : t.softblocked_count =
    s.softblocked_count - BitVec.ofNat 32 (K.countP fun q ↦ decide (q ∈ softWaiters cfg s))
  /-- The semaphores that are left have someone in their queue. -/
  active : (∀ d ∈ t.asl.semd_h, t.asl.procQ d ≠ []) ∧
    ∀ k, (∃ d ∈ t.asl.semd_h, t.asl.key d = k) ↔ ∃ q, q ∈ s.asl.queue k ∧ q ∉ K
  /-- The others keep their order in every queue. -/
  pidList : t.pid_list_h = s.pid_list_h.filter (· ∉ K)
  ready : ∀ pr, t.readyQueue pr = (s.readyQueue pr).filter (· ∉ K)
  queue : ∀ k, t.asl.queue k = (s.asl.queue k).filter (· ∉ K)
  /-- The PCBs of the others are unchanged, but that the parent of `p` has lost a child. -/
  others : ∀ q, q ∉ K → t.pcbFree_table q =
    { s.pcbFree_table q with p_child := (s.pcbFree_table q).p_child.erase p }
  /-- The words of the semaphores, with all the memory, are unchanged. -/
  mem : t.mem = s.mem ∧ t.support = s.support
  curr : t.curr_process = s.curr_process

variable {cfg : Config n} {s t u : Nucleus n} {c p q : Fin n} {K held : List (Fin n)} {e : Exit}

/-! ## The subtree -/

/-- Of the subtree, only its root is the child of an outsider. -/
theorem Subtree.filter_children (h : Subtree s [p] K) (hs : Forest s) (hq : q ∉ K) :
    (s.children q).filter (· ∉ K) = (s.children q).erase p := by
  rw [(hs.nodup q).erase_eq_filter]
  refine List.filter_congr fun c hc ↦ ?_
  have hroot : c ∈ K ↔ c = p := by
    constructor
    · intro hcK
      cases h.mem_iff.mp hcK with
      | refl => rfl
      | @tail b _ hb hmem =>
          -- the parent of `c` is in the subtree
          have hbq : b = q := Option.some.inj
            (((hs.link b c).mp hmem).symm.trans ((hs.link q c).mp hc))
          exact absurd (h.mem_iff.mpr (hbq ▸ hb)) hq
    · rintro rfl
      exact h.root c (List.mem_singleton_self c)
  by_cases e : c = p
  · subst e
    simp [hroot.mpr rfl]
  · simp [mt hroot.mp e, e]

theorem Asl.Inv.mem_keys {a : Asl n} {sem : Fin n → Option Word} (h : a.Inv sem) (k : Word) :
    (∃ d ∈ a.semd_h, a.key d = k) ↔ ∃ q, q ∈ a.queue k := by
  constructor
  · rintro ⟨d, hd, rfl⟩
    obtain ⟨q, hq⟩ := List.exists_mem_of_ne_nil _ (h.nonempty d hd)
    exact ⟨q, h.mem_queue.mpr ((h.blocked q _).mpr ⟨d, hd, rfl, hq⟩)⟩
  · rintro ⟨q, hq⟩
    obtain ⟨d, hd, hk, -⟩ := (h.blocked q k).mp (h.mem_queue.mp hq)
    exact ⟨d, hd, hk⟩

theorem Killed.terminated (h : Killed cfg p K s t) (hsound : Sound cfg held s)
    (hp : p ∉ s.pcbFree_h) : Terminated cfg p K s t := by
  have hs := hsound.core
  have halive := h.alive hs hp
  have ht := hs.killed h hp
  have hgone : ∀ {l : List (Fin n)} {q}, q ∈ K → q ∉ l.filter (· ∉ K) := fun hq hmem ↦
    (mem_filter_notMem.mp hmem).2 hq
  constructor
  · exact fun q ↦ h.subtree.mem_iff
  · exact halive
  · exact ⟨h.torn.free, h.subtree.nodup⟩
  · intro q hq
    refine ⟨?_, fun pr ↦ ?_, fun k ↦ ?_, fun c ↦ ?_, ?_, ?_, ?_⟩
    · rw [h.torn.pidList]
      exact hgone hq
    · rw [h.torn.ready]
      exact hgone hq
    · rw [h.torn.queue]
      exact hgone hq
    · rw [h.torn.children]
      exact hgone hq
    · rw [h.torn.semAdd, if_pos hq]
    · rw [h.torn.parent, if_pos hq]
    · rw [h.torn.children]
      refine List.filter_eq_nil_iff.mpr fun r hr ↦ ?_
      simpa using h.subtree.closed q hq r hr
  · have hcount := hs.count
    have hcount' := ht.count
    rw [h.torn.free, List.length_append, List.length_reverse] at hcount'
    omega
  · have hsoft : ∀ q, isSoftBlocked cfg q s = decide (q ∈ softWaiters cfg s) := fun q ↦ by
      rw [Bool.eq_iff_iff, hsound.isSoftBlocked_iff, decide_eq_true_iff]
    rw [h.torn.soft]
    simp only [hsoft]
  · refine ⟨h.torn.asl.nonempty, fun k ↦ ?_⟩
    rw [h.torn.asl.mem_keys, h.torn.queue]
    simp only [mem_filter_notMem]
  · exact h.torn.pidList
  · exact h.torn.ready
  · exact h.torn.queue
  · intro q hq
    rw [h.torn.table, ← show (s.children q).filter (· ∉ K) = (s.pcbFree_table q).p_child.erase p from
      h.subtree.filter_children hs.forest hq]
    unfold Pcb.torn
    rw [if_neg hq, if_neg hq, if_neg hq]
    rfl
  · exact ⟨congrArg (·.1.2.2.2.2.1) h.torn.kept, congrArg (·.1.2.2.2.2.2) h.torn.kept⟩
  · exact congrArg (·.1.2.1) h.torn.kept

/-! ## The caller -/

/-- The scheduler dispatches a ready process. -/
theorem Scheduled.curr (h : Scheduled cfg s e t) (he : e ≠ .halt) (hc : t.curr_process = some c) :
    ∃ pr, c ∈ s.readyQueue pr := by
  cases h with
  | halt => exact absurd rfl he
  | wait => cases hc
  | deadlock => cases hc
  | dispatch p prio rest hcount hnext hqueue =>
      have hcurr : ((s.pick p prio rest).load cfg p).curr_process = some p := by
        unfold Nucleus.load
        split <;> rfl
      obtain rfl : p = c := Option.some.inj (hcurr.symm.trans hc)
      exact ⟨prio, by rw [hqueue]; exact List.mem_cons_self⟩

variable (cfg) in
/-- A caller of TERMPROCESS that is killed gives way to the scheduler. -/
theorem termProcess_run (hs : Core s (c :: held)) (hc : s.curr_process = some c)
    (htarget : s.target c = some p) (hdesc : s.Descends p c) :
    ∃ K t, Killed cfg p K s t ∧ termProcess cfg s = scheduler cfg t := by
  obtain ⟨K, t, hrun, hkill⟩ := killProcess_run cfg hs.linked p
  refine ⟨K, t, hkill, ?_⟩
  have hK : c ∈ K := hkill.subtree.mem_iff.mpr hdesc
  have hdead : ¬ t.pid c ≠ FREE_PCB_PID := not_not.mpr (by rw [hkill.torn.pid, if_pos hK])
  have hcurr : t.curr_process = some c := (congrArg (·.1.2.1) hkill.torn.kept).trans hc
  by_cases hpid : s.prev.reg_a1 = 0
  · obtain rfl : c = p := Option.some.inj ((if_pos hpid).symm.trans htarget)
    simp only [termProcess, bind_run, get_run, ite_run, hpid, if_true, hc, deref_some, hrun]
  · have hp : getProcessByPid s.prev.reg_a1 s = some p := (if_neg hpid).symm.trans htarget
    simp only [termProcess, bind_run, get_run, ite_run, hpid, if_false, hp, hrun, hcurr,
      isAlive_dead cfg hdead, Bool.not_false, if_true]

variable (cfg) in
/-- In every reachable state, `_killProcess` terminates a process and its descendants, and
a caller of TERMPROCESS that is among them is not resumed: it is freed, and the scheduler
chooses another process or halts. -/
theorem killProcess_exact (h : Reachable (Start cfg) (NucStep cfg) s) :
    (∀ p, p ∉ s.pcbFree_h →
      ∃ K t, killProcess cfg (2 * n + 2) p s = .ok ⟨⟩ t ∧ Terminated cfg p K s t) ∧
    ∀ state c p, s.curr_process = some c → IsCall state TERMPROCESS →
      Nucleus.target c (enter state s) = some p → s.Descends p c →
      ∃ K u e t, Terminated cfg p K (enter state s).advanced u ∧ c ∈ K ∧
        exceptionHandler cfg (enter state s) = .error e t ∧ Scheduled cfg u e t ∧
        (e = .halt ∨ t.curr_process ≠ some c) ∧ c ∈ t.pcbFree_h := by
  obtain ⟨lost, -, hsound⟩ := reachable_inv h
  have hcore := hsound.core
  refine ⟨fun p hp ↦ ?_, fun state c p hc hcall htarget hdesc ↦ ?_⟩
  · obtain ⟨K, t, hrun, hkill⟩ := killProcess_run cfg hcore.linked p
    exact ⟨K, t, hrun, hkill.terminated hsound hp⟩
  · rw [hc] at hsound
    have hsound' : Sound cfg (c :: lost) (enter state s).advanced :=
      hsound.quiet ⟨fun _ ↦ rfl, rfl⟩ rfl
    obtain ⟨K, u, hkill, hterm⟩ := termProcess_run cfg hsound'.core hc htarget hdesc
    have hend := hkill.terminated hsound' (target_alive hsound'.core htarget)
    have hK : c ∈ K := (hend.members c).mpr hdesc
    obtain ⟨e, t, hrun, hnext⟩ := scheduler_run cfg u
    refine ⟨K, u, e, t, hend, hK, ?_, hnext, ?_, ?_⟩
    · rw [exceptionHandler_call (s := enter state s) hcall (by decide), systemcall, if_neg (by decide),
        if_pos rfl, bind_run, hterm, hrun]
    · refine or_iff_not_imp_left.mpr fun he hcurr ↦ ?_
      obtain ⟨pr, hready⟩ := hnext.curr he hcurr
      exact (hend.gone c hK).2.1 pr hready
    · rw [show t.pcbFree_h = u.pcbFree_h from congrArg Prod.snd hnext.tree.1, hend.freed.1]
      exact List.mem_append_left _ (List.mem_reverse.mpr hK)

/-- The first process creates a child and kills itself. -/
theorem killProcess_exact_sample :
    ∃ (s u : Nucleus 2) (K : List (Fin 2)),
      Terminated (.sample 2 (by decide) .faults) 0 K s u ∧ 0 ∈ K ∧ 1 ∈ K := by
  let cfg := Config.sample 2 (by decide) .faults
  let state := State.call TERMPROCESS 0 0 0
  obtain ⟨s, hs, hc, hchild⟩ := execute_reachable cfg
    (P := fun s ↦ s.curr_process = some 0 ∧ s.children 0 = [1])
    [.call CREATEPROCESS 0x20003000 1 0] (by decide +kernel)
  obtain ⟨K, u, e, t, hend, hK, -⟩ := (killProcess_exact cfg hs).2 state 0 0 hc (by decide) rfl .refl
  refine ⟨_, u, K, hend, hK, (hend.members 1).mpr (.single ?_)⟩
  change 1 ∈ s.children 0
  rw [hchild]
  exact List.mem_singleton_self 1

end PandosPlus
