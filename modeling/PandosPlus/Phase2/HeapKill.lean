import PandosPlus.Phase1.HeapRuns
import PandosPlus.Phase2.Termination

/-!
# `_killProcess` in memory

The recursion of `_killProcess` and its loop on the links themselves.  Whatever reachable state
of the nucleus the lists in memory stand for, the process and its descendants are unlinked from
everything they are in, and what is left in memory are the lists `_killProcess` leaves.
-/

namespace PandosPlus

open Circular Flow Lts Threads

variable {n : Nat} (cfg : Config n)

namespace Heap

/-- `isSoftBlocked` -/
def isSoftBlocked (p : Fin n) (H : Heap n) : Bool :=
  match (H.pcbFree_table p).p_semAdd with
  | none => false
  | some a =>
      a = cfg.semaphore_it ∨
        (a ≥ cfg.devSem 0 ∧ a ≤ cfg.devSem (Fin.last (TOTAL_IO_DEVICES - 1)))

/-- The lines of `_killProcess` on semaphores. -/
def releaseProcess (process : Fin n) : HeapM n Unit := do
  let H ← get
  if (H.pcbFree_table process).p_semAdd ≠ none then
    if H.isSoftBlocked cfg process then
      modify fun H ↦ { H with softblocked_count := H.softblocked_count - 1 }
    let _ ← outBlocked process

/-- The lines of `_killProcess` before the loop over the children. -/
def detachProcess (process : Fin n) : HeapM n Unit := do
  let _ ← outChild process
  modify fun H ↦ { H with process_count := H.process_count - 1 }
  releaseProcess cfg process
  let H ← get
  let _ ← outProcQ (readyHead (H.pcbFree_table process).p_prio) process

mutual

/-- `_killProcess`, to a depth of at most `fuel`. -/
def killProcess : Nat → Fin n → HeapM n Unit
  | 0, _ => throw .endless
  | fuel + 1, process => do
      detachProcess cfg process
      killChildren fuel process
      modify (freePcb process)

/-- The loop of `_killProcess`, for at most `fuel` turns. -/
def killChildren : Nat → Fin n → HeapM n Unit
  | 0, _ => throw .endless
  | fuel + 1, process => do
      match ← removeChild process with
      | none => return
      | some child =>
          killProcess fuel child
          killChildren fuel process

end

end Heap

variable {cfg} {H : Heap n} {s t u : Nucleus n} {p q c : Fin n} {held D F : List (Fin n)}

theorem Core.listInv (h : Core s held) : ListInv s := ⟨h.pids, h.asl, h.forest, h.free_leaf⟩

namespace Heap.Mirrors

/-- Counters of the nucleus are assigned to. -/
theorem setCounts (h : H.Mirrors s) (a b : Word) :
    ({ H with process_count := a, softblocked_count := b } : Heap n).Mirrors
      { s with process_count := a, softblocked_count := b } where
  models := (h.models.setCounts a b).mono fun h hh ↦ by cases h <;> exact hh
  inv := ⟨⟨h.inv.pids.ascending, h.inv.pids.partition, h.inv.pids.free_pid⟩, h.inv.asl,
    ⟨h.inv.forest.link, h.inv.forest.nodup⟩, h.inv.free_leaf⟩

theorem process_count (h : H.Mirrors s) : H.process_count = s.process_count :=
  congrArg (·.2.1) h.models.counters

theorem softblocked_count (h : H.Mirrors s) : H.softblocked_count = s.softblocked_count :=
  congrArg (·.2.2) h.models.counters

theorem fewerProcesses (h : H.Mirrors s) :
    ({ H with process_count := H.process_count - 1 } : Heap n).Mirrors
      { s with process_count := s.process_count - 1 } := by
  have hheap : ({ H with process_count := H.process_count - 1 } : Heap n) =
      { H with
        process_count := s.process_count - 1
        softblocked_count := s.softblocked_count } := by
    rw [← h.process_count, ← h.softblocked_count]
  rw [hheap]
  exact h.setCounts (s.process_count - 1) s.softblocked_count

theorem fewerBlocked (h : H.Mirrors s) :
    ({ H with softblocked_count := H.softblocked_count - 1 } : Heap n).Mirrors
      { s with softblocked_count := s.softblocked_count - 1 } := by
  have hheap : ({ H with softblocked_count := H.softblocked_count - 1 } : Heap n) =
      { H with
        process_count := s.process_count
        softblocked_count := s.softblocked_count - 1 } := by
    rw [← h.process_count, ← h.softblocked_count]
  rw [hheap]
  exact h.setCounts s.process_count (s.softblocked_count - 1)

theorem isSoftBlocked (h : H.Mirrors s) (p : Fin n) :
    H.isSoftBlocked cfg p = PandosPlus.isSoftBlocked cfg p s := by
  rw [Heap.isSoftBlocked, h.models.pcb]
  rfl

variable (cfg) in
/-- The process leaves the semaphore it waits at, if it waits. -/
theorem releaseProcess (h : H.Mirrors s) (p : Fin n) :
    ∃ H', Heap.releaseProcess cfg p H = .ok ⟨⟩ H' ∧ H'.Mirrors (s.release cfg p) := by
  have hsem : (H.pcbFree_table p).p_semAdd = s.semAdd p := by
    rw [h.models.pcb]
    rfl
  cases hk : s.semAdd p with
  | none =>
      rw [hk] at hsem
      rw [release_none hk]
      refine ⟨H, ?_, h⟩
      simp only [Heap.releaseProcess, bind_run, get_run, ite_run, hsem, ne_eq, not_true_eq_false,
        if_false, pure_run]
  | some k =>
      rw [hk] at hsem
      rw [release_some hk]
      by_cases hblocked : PandosPlus.isSoftBlocked cfg p s = true
      · obtain ⟨H', hrun, h'⟩ := h.fewerBlocked.outBlocked (p := p) (k := k) hk
        refine ⟨H', ?_, ?_⟩
        · simp only [Heap.releaseProcess, bind_run, get_run, ite_run, hsem, ne_eq, reduceCtorEq,
            not_false_eq_true, if_true, h.isSoftBlocked p, hblocked, modify_run, hrun, pure_run]
        · rwa [if_pos hblocked]
      · obtain ⟨H', hrun, h'⟩ := h.outBlocked hk
        refine ⟨H', ?_, ?_⟩
        · simp only [Heap.releaseProcess, bind_run, get_run, ite_run, hsem, ne_eq, reduceCtorEq,
            not_false_eq_true, if_true, h.isSoftBlocked p, hblocked, if_false, hrun, pure_run]
        · rwa [if_neg hblocked,
            show s.softblocked_count - 0 = s.softblocked_count from BitVec.sub_zero _]

variable (cfg) in
/-- Before the loop the process is in no list. -/
theorem detachProcess (h : H.Mirrors s) (p : Fin n) :
    ∃ H', Heap.detachProcess cfg p H = .ok ⟨⟩ H' ∧ H'.Mirrors (s.detach cfg p) := by
  obtain ⟨H₁, hout, h₁⟩ := h.outChild p
  rw [outChild_eq h.inv.forest] at h₁
  obtain ⟨H₂, hrel, h₂⟩ := h₁.fewerProcesses.releaseProcess cfg p
  obtain ⟨H₃, hproc, h₃⟩ := h₂.outProcQ (H₂.pcbFree_table p).p_prio p
  refine ⟨H₃, ?_, ?_⟩
  · simp only [Heap.detachProcess, bind_run, hout, modify_run, hrel, get_run, hproc, pure_run]
  · rw [outProcQ_snd, h₂.models.pcb] at h₃
    exact h₃

end Heap.Mirrors

/-! ## The recursion -/

/-- Once it has been detached and its descendants freed, a process may be freed. -/
theorem Torn.idle (h : Torn cfg D F s t) (hp : p ∈ D) (hF : p ∉ F) (hfree : p ∉ s.pcbFree_h)
    (hclosed : ∀ q ∈ s.children p, q ∈ D) :
    t.Idle p ∧ t.parent p = none ∧ t.children p = [] := by
  refine ⟨⟨?_, fun prio ↦ ?_, ?_⟩, ?_, ?_⟩
  · rw [h.free, List.mem_append, List.mem_reverse]
    exact fun hor ↦ hor.elim hF hfree
  · rw [h.ready]
    exact fun hmem ↦ (mem_filter_notMem.mp hmem).2 hp
  · rw [h.semAdd, if_pos hp]
  · rw [h.parent, if_pos hp]
  · rw [h.children]
    refine List.filter_eq_nil_iff.mpr fun q hq ↦ ?_
    simpa using hclosed q hq

/-- A process without a parent is in no subtree but its own. -/
theorem Subtree.notMem_root (h : Subtree s [c] D) (hs : Forest s) (hp : s.parent p = none)
    (hcp : p ≠ c) : p ∉ D := by
  intro hmem
  cases h.mem_iff.mp hmem with
  | refl => exact hcp rfl
  | tail _ hq =>
      rw [(hs.link _ p).mp hq] at hp
      cases hp

/-- Along the recursion on lists, and its loop, goes the one in memory. -/
theorem kill_mirrors (fuel : Nat) :
    (∀ (H : Heap n) s p, H.Mirrors s → Linked s → p ∉ s.pcbFree_h → 2 * s.nlinks + 2 ≤ fuel →
      ∃ H' t, Heap.killProcess cfg fuel p H = .ok ⟨⟩ H' ∧ killProcess cfg fuel p s = .ok ⟨⟩ t ∧
        H'.Mirrors t) ∧
    ∀ (H : Heap n) s p, H.Mirrors s → Linked s → p ∉ s.pcbFree_h → s.parent p = none →
      2 * s.nlinks + 1 ≤ fuel →
      ∃ H' t, Heap.killChildren cfg fuel p H = .ok ⟨⟩ H' ∧ killChildren cfg fuel p s = .ok ⟨⟩ t ∧
        H'.Mirrors t := by
  induction fuel with
  | zero => exact ⟨fun H s p _ _ _ h ↦ by omega, fun H s p _ _ _ _ h ↦ by omega⟩
  | succ fuel ih =>
      obtain ⟨ihProcess, ihChildren⟩ := ih
      constructor
      · intro H s p h hs hp hfuel
        have hdetach : Torn cfg [p] [] s (s.detach cfg p) := hs.detach p
        have hlinks := hdetach.nlinks_le
        obtain ⟨H₁, hrun₁, h₁⟩ := h.detachProcess cfg p
        have hp₁ : p ∉ (s.detach cfg p).pcbFree_h := by
          rw [hdetach.free]
          exact hp
        have hroot : (s.detach cfg p).parent p = none := by
          rw [hdetach.parent, if_pos (List.mem_singleton_self p)]
        obtain ⟨H₂, t, hheap, hlist, h₂⟩ :=
          ihChildren H₁ _ p h₁ (hdetach.linked hs) hp₁ hroot (by omega)
        -- what the loop has done to the lists says that the process may be freed
        obtain ⟨D, F, u, hrun, htorn, hperm, htree⟩ :=
          (@kill_run n cfg fuel).2 _ p (hdetach.linked hs) (by omega)
        obtain rfl : t = u := by
          rw [hlist] at hrun
          cases hrun
          rfl
        have hcons := Subtree.cons hdetach htree
        have hpD : p ∉ D := (List.nodup_cons.mp hcons.nodup).1
        have hboth : Torn cfg ([p] ++ D) ([] ++ F) s t :=
          hdetach.trans htorn fun q hq hq' ↦ hpD (List.mem_singleton.mp hq' ▸ hq)
        obtain ⟨hidle, hparent, hchildren⟩ := hboth.idle List.mem_cons_self
          (fun hmem ↦ hpD (hperm.mem_iff.mpr hmem)) hp (hcons.closed p List.mem_cons_self)
        refine ⟨H₂.freePcb p, freePcb p t, ?_, ?_, h₂.freePcb hidle hparent hchildren⟩
        · simp only [Heap.killProcess, bind_run, hrun₁, hheap, modify_run]
        · simp only [killProcess, bind_run, detachProcess_run hs, hlist, modify_run]
      · intro H s p h hs hp hparent hfuel
        obtain ⟨H₁, hrun₁, h₁⟩ := h.removeChild hp
        cases hc : s.children p with
        | nil =>
            rw [removeChild_nil hc] at hrun₁ h₁
            refine ⟨H₁, s, ?_, ?_, h₁⟩
            · simp only [Heap.killChildren, bind_run, hrun₁, pure_run]
            · simp only [killChildren, bind_run, get_run, removeChild_nil hc, pure_run]
        | cons c rest =>
            rw [removeChild_cons hc] at hrun₁ h₁
            have hmem : c ∈ s.children p := by rw [hc]; exact List.mem_cons_self
            have hcparent : s.parent c = some p := (hs.forest.link p c).mp hmem
            have hcp : p ≠ c := fun he ↦ by
              rw [← he, hparent] at hcparent
              cases hcparent
            have hcfree : c ∉ s.pcbFree_h := fun hfree ↦ by
              rw [(h.inv.free_leaf c hfree).1] at hcparent
              cases hcparent
            have hlinks := nlinks_unlink hmem
            obtain ⟨H₂, t, hheap, hlist, h₂⟩ :=
              ihProcess H₁ (removeFromTree c s) c h₁ (hs.unlink c) hcfree (by omega)
            obtain ⟨D, F, u, hrun, htorn, hperm, htree⟩ :=
              (@kill_run n cfg fuel).1 _ c (hs.unlink c) (by omega)
            obtain rfl : t = u := by
              rw [hlist] at hrun
              cases hrun
              rfl
            have hlinks' := htorn.nlinks_le
            have hs' := htorn.of_unlink hs (htree.root c (List.mem_singleton_self c))
            have hpD : p ∉ D := by
              refine htree.notMem_root (hs.unlink c).forest ?_ hcp
              rw [removeFromTree_parent, if_neg hcp]
              exact hparent
            have hpt : p ∉ t.pcbFree_h := by
              rw [hs'.free, List.mem_append, List.mem_reverse]
              exact fun hor ↦ hor.elim (fun hF ↦ hpD (hperm.mem_iff.mpr hF)) hp
            have hroot : t.parent p = none := by
              rw [hs'.parent, if_neg hpD]
              exact hparent
            obtain ⟨H₃, v, hheap', hlist', h₃⟩ :=
              ihChildren H₂ t p h₂ (hs'.linked hs) hpt hroot (by omega)
            refine ⟨H₃, v, ?_, ?_, h₃⟩
            · simp only [Heap.killChildren, bind_run, hrun₁, hheap, hheap']
            · simp only [killChildren, bind_run, get_run, removeChild_cons hc, set_run, hlist,
                hlist']

/-! ## Every state has a memory -/

/-- No PCB is in two lists through one link field. -/
theorem Core.alone (hs : Core s held) (h h' : Sentinel n) (p : Fin n) (hh : s.Live h)
    (hh' : s.Live h') (hm : h.member = h'.member) (hp : p ∈ s.entries h)
    (hp' : p ∈ s.entries h') : h = h' := by
  have hblocked : ∀ {d}, d ∈ s.asl.semd_h → p ∈ s.asl.procQ d → s.semAdd p = some (s.asl.key d) :=
    fun hd hmem ↦ (hs.asl.blocked p _).mpr ⟨_, hd, rfl, hmem⟩
  have hfree_ready : ∀ {prio}, p ∈ s.pcbFree_h → p ∉ s.readyQueue prio :=
    fun hfree hready ↦ (hs.of_ready hready).1 hfree
  have hfree_blocked : ∀ {d}, d ∈ s.asl.semd_h → p ∈ s.pcbFree_h → p ∉ s.asl.procQ d :=
    fun hd hfree hmem ↦ (hs.of_blocked (hblocked hd hmem)).1 hfree
  have hready_blocked : ∀ {prio d}, d ∈ s.asl.semd_h → p ∈ s.readyQueue prio →
      p ∉ s.asl.procQ d := fun hd hready hmem ↦ by
    have hsem := (hs.of_ready hready).2.1
    rw [hblocked hd hmem] at hsem
    cases hsem
  have hsemd : p ∈ s.asl.semdFree_h → p ∉ s.asl.semd_h := fun hfree hmem ↦ by
    have hcount := hs.asl.partition p
    have := List.count_pos_iff.mpr hfree
    have := List.count_pos_iff.mpr hmem
    omega
  cases h with
  | pcbFree_h =>
      cases h' with
      | pcbFree_h => rfl
      | readyqueue prio => exact absurd hp' (hfree_ready hp)
      | s_procq d => exact absurd hp' (hfree_blocked hh' hp)
      | _ => cases hm
  | pid_list_h =>
      cases h' with
      | pid_list_h => rfl
      | _ => cases hm
  | readyqueue prio =>
      cases h' with
      | pcbFree_h => exact absurd hp (hfree_ready hp')
      | readyqueue prio' => rw [← hs.prio prio p hp, ← hs.prio prio' p hp']
      | s_procq d => exact absurd hp' (hready_blocked hh' hp)
      | _ => cases hm
  | p_child q =>
      cases h' with
      | p_child q' =>
          have hparent := (hs.forest.link q p).mp hp
          rw [(hs.forest.link q' p).mp hp'] at hparent
          rw [Option.some.inj hparent]
      | _ => cases hm
  | semdFree_h =>
      cases h' with
      | semdFree_h => rfl
      | semd_h => exact absurd hp' (hsemd hp)
      | _ => cases hm
  | semd_h =>
      cases h' with
      | semdFree_h => exact absurd hp (hsemd hp')
      | semd_h => rfl
      | _ => cases hm
  | s_procq d =>
      cases h' with
      | pcbFree_h => exact absurd hp (hfree_blocked hh hp')
      | readyqueue prio => exact absurd hp (hready_blocked hh hp')
      | s_procq d' =>
          have hkey := hblocked hh hp
          rw [hblocked hh' hp'] at hkey
          have hpeek := hs.asl.peek_key hh
          rw [← Option.some.inj hkey, hs.asl.peek_key hh'] at hpeek
          rw [Option.some.inj hpeek]
      | _ => cases hm

theorem Core.entries_nodup (hs : Core s held) (h : Sentinel n) (hh : s.Live h) :
    (s.entries h).Nodup := by
  cases h with
  | pcbFree_h => exact hs.pids.free_nodup
  | pid_list_h => exact hs.pids.ascending.nodup
  | readyqueue prio => exact hs.ready_nodup prio
  | p_child p => exact hs.forest.nodup p
  | semdFree_h =>
      refine List.nodup_iff_count_le_one.mpr fun d ↦ ?_
      have := hs.asl.partition d
      change s.asl.semdFree_h.count d ≤ 1
      omega
  | semd_h => exact hs.asl.ascending.nodup
  | s_procq d => exact hs.asl.nodup d hh

/-- The lists of a nucleus that is in order can be laid out in memory. -/
theorem Core.exists_mirrors (hs : Core s held) : ∃ H : Heap n, H.Mirrors s := by
  obtain ⟨L, ht⟩ := exists_threads hs.entries_nodup hs.alone
  exact ⟨⟨L, fun p ↦ (s.pcbFree_table p).fields, s.asl.key, s.curr_pid, s.process_count,
    s.softblocked_count⟩, ⟨ht, fun _ ↦ rfl, fun _ ↦ rfl, rfl⟩, hs.listInv⟩

variable (cfg) in
/-- In every reachable state the lists can be laid out in memory; and however they are, for a
process that is not free `_killProcess` comes to its end in memory, with the process and its
descendants terminated, and leaves there the lists of the state it leaves. -/
theorem killProcess_in_memory (h : Reachable (Start cfg) (NucStep cfg) s) :
    (∃ H : Heap n, H.Mirrors s) ∧ ∀ H : Heap n, H.Mirrors s → ∀ p, p ∉ s.pcbFree_h →
      ∃ H' K t, Heap.killProcess cfg (2 * n + 2) p H = .ok ⟨⟩ H' ∧
        killProcess cfg (2 * n + 2) p s = .ok ⟨⟩ t ∧ Terminated cfg p K s t ∧ H'.Mirrors t := by
  obtain ⟨lost, -, hsound⟩ := reachable_inv h
  refine ⟨hsound.core.exists_mirrors, fun H hm p hp ↦ ?_⟩
  have hlinks := hsound.core.forest.nlinks_le
  obtain ⟨H', t, hheap, hlist, hm'⟩ :=
    (kill_mirrors (2 * n + 2)).1 H s p hm hsound.core.linked hp (by omega)
  obtain ⟨K, u, hrun, hkill⟩ := killProcess_run cfg hsound.core.linked p
  obtain rfl : t = u := by
    rw [hlist] at hrun
    cases hrun
    rfl
  exact ⟨H', K, t, hheap, hlist, hkill.terminated hsound hp, hm'⟩

/-- The first process, with the one child it has created, is killed in memory. -/
theorem killProcess_in_memory_sample :
    ∃ (H H' : Heap 2) (s t : Nucleus 2), s.children 0 = [1] ∧ H.Mirrors s ∧
      Heap.killProcess (.sample 2 (by decide) .faults) (2 * 2 + 2) 0 H = .ok ⟨⟩ H' ∧
      H'.Mirrors t ∧ 1 ∈ t.pcbFree_h := by
  let cfg := Config.sample 2 (by decide) .faults
  obtain ⟨s, hs, hfree, hchild⟩ := execute_reachable cfg
    (P := fun s ↦ s.pcbFree_h = [] ∧ s.children 0 = [1])
    [.call CREATEPROCESS 0x20003000 1 0] (by decide +kernel)
  obtain ⟨⟨H, hm⟩, hkill⟩ := killProcess_in_memory cfg hs
  obtain ⟨H', K, t, hheap, -, hend, hm'⟩ := hkill H hm 0 (by rw [hfree]; exact List.not_mem_nil)
  refine ⟨H, H', s, t, hchild, hm, hheap, hm', ?_⟩
  rw [hend.freed.1]
  refine List.mem_append_left _ (List.mem_reverse.mpr ((hend.members 1).mpr (.single ?_)))
  rw [hchild]
  exact List.mem_singleton_self 1

end PandosPlus
