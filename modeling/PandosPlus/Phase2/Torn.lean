import PandosPlus.Phase2.Invariant

/-!
# Detaching and freeing PCBs

`_killProcess` takes a PCB out of everything it is in, does the same to its children
one by one, and only then frees it.  `Torn D F` says what has changed once the PCBs
in `D` have been detached and those in `F` freed; it composes, so the recursion is a
sequence of such changes.
-/

namespace PandosPlus

open Flow

variable {n : Nat} (cfg : Config n)

/-! ## Detaching and freeing -/

/-- The fields a kill leaves alone. -/
def Nucleus.kept (s : Nucleus n) :
    (Word × Option (Fin n) × Int × Option (Fin n) × (Word → Word) × (Word → Support)) ×
      State × Word × Int × Int × Nat :=
  ((s.curr_pid, s.curr_process, s.timer_start, s.process_to_skip, s.mem, s.support),
    s.prev, s.status, s.plt, s.it, s.clock)

/-- A PCB once `D` have been detached and `F` freed. -/
def Pcb.torn (D F : List (Fin n)) (q : Fin n) (x : Pcb n) : Pcb n :=
  { x with
    p_parent := if q ∈ D then none else x.p_parent
    p_child := x.p_child.filter (· ∉ D)
    p_semAdd := if q ∈ D then none else x.p_semAdd
    p_pid := if q ∈ F then FREE_PCB_PID else x.p_pid }

/-- The PCBs in `D` have been detached and those in `F` freed, the latter in order. -/
structure Torn (D F : List (Fin n)) (s t : Nucleus n) : Prop where
  table : ∀ q, t.pcbFree_table q = (s.pcbFree_table q).torn D F q
  free : t.pcbFree_h = F.reverse ++ s.pcbFree_h
  pidList : t.pid_list_h = s.pid_list_h.filter (· ∉ F)
  ready : ∀ pr, t.readyQueue pr = (s.readyQueue pr).filter (· ∉ D)
  asl : t.asl.Inv t.semAdd
  queue : ∀ k, t.asl.queue k = (s.asl.queue k).filter (· ∉ D)
  count : t.process_count = s.process_count - BitVec.ofNat 32 D.length
  soft : t.softblocked_count =
    s.softblocked_count - BitVec.ofNat 32 (D.countP fun q ↦ isSoftBlocked cfg q s)
  kept : t.kept = s.kept

/-- What a kill needs of the state it starts in. -/
structure Linked (s : Nucleus n) : Prop where
  forest : Forest s
  asl : s.asl.Inv s.semAdd
  ready_nodup : ∀ pr, (s.readyQueue pr).Nodup
  prio : ∀ pr, ∀ p ∈ s.readyQueue pr, s.prio p = pr
  pids_nodup : s.pid_list_h.Nodup

variable {cfg} {s t u : Nucleus n} {D D' F F' held : List (Fin n)} {p q c : Fin n}

theorem Core.linked (h : Core s held) : Linked s :=
  ⟨h.forest, h.asl, h.ready_nodup, h.prio, h.pids.ascending.nodup⟩

namespace Torn

theorem parent (h : Torn cfg D F s t) (q : Fin n) :
    t.parent q = if q ∈ D then none else s.parent q := congrArg Pcb.p_parent (h.table q)

theorem children (h : Torn cfg D F s t) (q : Fin n) :
    t.children q = (s.children q).filter (· ∉ D) := congrArg Pcb.p_child (h.table q)

theorem semAdd (h : Torn cfg D F s t) (q : Fin n) :
    t.semAdd q = if q ∈ D then none else s.semAdd q := congrArg Pcb.p_semAdd (h.table q)

theorem pid (h : Torn cfg D F s t) (q : Fin n) :
    t.pid q = if q ∈ F then FREE_PCB_PID else s.pid q := congrArg Pcb.p_pid (h.table q)

theorem prio (h : Torn cfg D F s t) : t.prio = s.prio := by
  funext q
  rw [Nucleus.prio, h.table]
  rfl

theorem isSoftBlocked_eq (h : Torn cfg D F s t) (hq : q ∉ D) :
    isSoftBlocked cfg q t = isSoftBlocked cfg q s := by
  have hsem : (t.pcbFree_table q).p_semAdd = (s.pcbFree_table q).p_semAdd := by
    have := h.semAdd q
    rwa [if_neg hq] at this
  rw [isSoftBlocked, isSoftBlocked, hsem]

theorem linked (h : Torn cfg D F s t) (hs : Linked s) : Linked t where
  forest := by
    refine ⟨fun p q ↦ ?_, fun p ↦ ?_⟩
    · rw [h.children, h.parent, List.mem_filter, hs.forest.link]
      by_cases hq : q ∈ D <;> simp [hq]
    · rw [h.children]
      exact (hs.forest.nodup p).filter _
  asl := h.asl
  ready_nodup pr := by
    rw [h.ready]
    exact (hs.ready_nodup pr).filter _
  prio pr p hp := by
    rw [h.ready] at hp
    rw [h.prio]
    exact hs.prio pr p (List.mem_of_mem_filter hp)
  pids_nodup := by
    rw [h.pidList]
    exact hs.pids_nodup.filter _

/-- The same PCBs in another order; the order in which they are freed stays. -/
theorem perm (h : Torn cfg D F s t) (hp : D.Perm D') : Torn cfg D' F s t where
  table q := by
    rw [h.table]
    unfold Pcb.torn
    simp only [hp.mem_iff]
  free := h.free
  pidList := h.pidList
  ready pr := by
    rw [h.ready]
    simp only [hp.mem_iff]
  asl := h.asl
  queue k := by
    rw [h.queue]
    simp only [hp.mem_iff]
  count := by rw [h.count, hp.length_eq]
  soft := by rw [h.soft, hp.countP_eq]
  kept := h.kept

theorem trans (h : Torn cfg D F s t) (h' : Torn cfg D' F' t u) (hdisj : ∀ q ∈ D', q ∉ D) :
    Torn cfg (D ++ D') (F ++ F') s u where
  table q := by
    rw [h'.table, h.table]
    unfold Pcb.torn
    simp only [List.filter_filter, List.mem_append, not_or, Bool.decide_and]
    congr 1
    · by_cases hq : q ∈ D <;> by_cases hq' : q ∈ D' <;> simp [hq, hq']
    · exact List.filter_congr fun x _ ↦ Bool.and_comm _ _
    · by_cases hq : q ∈ D <;> by_cases hq' : q ∈ D' <;> simp [hq, hq']
    · by_cases hq : q ∈ F <;> by_cases hq' : q ∈ F' <;> simp [hq, hq']
  free := by rw [h'.free, h.free, List.reverse_append, List.append_assoc]
  pidList := by
    rw [h'.pidList, h.pidList, List.filter_filter]
    exact List.filter_congr fun x _ ↦ by simp [Bool.and_comm]
  ready pr := by
    rw [h'.ready, h.ready, List.filter_filter]
    exact List.filter_congr fun x _ ↦ by simp [Bool.and_comm]
  asl := h'.asl
  queue k := by
    rw [h'.queue, h.queue, List.filter_filter]
    exact List.filter_congr fun x _ ↦ by simp [Bool.and_comm]
  count := by
    rw [h'.count, h.count, List.length_append, BitVec.ofNat_add]
    bv_omega
  soft := by
    have hsoft : D'.countP (fun q ↦ isSoftBlocked cfg q t) =
        D'.countP (fun q ↦ isSoftBlocked cfg q s) :=
      List.countP_congr fun q hq ↦ by rw [h.isSoftBlocked_eq (hdisj q hq)]
    rw [h'.soft, h.soft, hsoft, List.countP_append, BitVec.ofNat_add]
    bv_omega
  kept := h'.kept.trans h.kept

end Torn

/-! ## The three changes of `_killProcess` -/

/-- `erase` from a list without repetitions. -/
theorem erase_eq_filter_notMem {l : List (Fin n)} (h : l.Nodup) (p : Fin n) :
    l.erase p = l.filter (· ∉ [p]) := by
  rw [h.erase_eq_filter]
  refine List.filter_congr fun x _ ↦ ?_
  by_cases e : x = p <;> simp [e]

theorem filter_notMem_singleton {l : List (Fin n)} (h : p ∉ l) : l.filter (· ∉ [p]) = l :=
  List.filter_eq_self.mpr fun x hx ↦ by
    simp only [List.mem_singleton, decide_eq_true_eq]
    rintro rfl
    exact h hx

theorem removeFromTree_table (s : Nucleus n) (p q : Fin n) :
    (removeFromTree p s).pcbFree_table q =
      { s.pcbFree_table q with
        p_parent := if q = p then none else (s.pcbFree_table q).p_parent
        p_child := (s.children q).erase p } := by
  rw [removeFromTree, Nucleus.modifyPcb_table]
  split <;> rfl

theorem outChild_none (hp : s.parent p = none) : (outChild p s).2 = s := by
  have hp' : (s.pcbFree_table p).p_parent = none := hp
  simp only [outChild, hp']

theorem outChild_some {r : Fin n} (hp : s.parent p = some r) :
    (outChild p s).2 = removeFromTree p s := by
  have hp' : (s.pcbFree_table p).p_parent = some r := hp
  simp only [outChild, hp']

/-- Taking a PCB out of the tree, whether or not it has a parent. -/
theorem outChild_eq (h : Forest s) (p : Fin n) : (outChild p s).2 = removeFromTree p s := by
  cases hp : s.parent p with
  | some r => exact outChild_some hp
  | none =>
      have htable : (removeFromTree p s).pcbFree_table = s.pcbFree_table := by
        funext q
        have hmem : p ∉ s.children q := fun hmem ↦ by
          rw [(h.link q p).mp hmem] at hp
          cases hp
        rw [removeFromTree_table, List.erase_of_not_mem hmem]
        by_cases e : q = p
        · rw [if_pos e, e, ← show s.parent p = none from hp]
          rfl
        · rw [if_neg e]
          rfl
      rw [outChild_none hp, show removeFromTree p s =
        { s with pcbFree_table := (removeFromTree p s).pcbFree_table } from rfl, htable]

theorem removeFromTree_semAdd (s : Nucleus n) (p : Fin n) :
    (removeFromTree p s).semAdd = s.semAdd := by
  funext q
  rw [Nucleus.semAdd, removeFromTree_table]
  rfl

variable (cfg) in
/-- The lines of `_killProcess` on semaphores. -/
def Nucleus.release (p : Fin n) (s : Nucleus n) : Nucleus n :=
  match s.semAdd p with
  | none => s
  | some k =>
      ({ s with softblocked_count :=
          s.softblocked_count - if isSoftBlocked cfg p s then 1 else 0 }).unblock k p

variable (cfg) in
/-- The lines of `_killProcess` before the loop. -/
def Nucleus.detach (p : Fin n) (s : Nucleus n) : Nucleus n :=
  let s := removeFromTree p s
  let s := ({ s with process_count := s.process_count - 1 }).release cfg p
  s.setReadyQueue ((s.readyQueue (s.prio p)).erase p) (s.prio p)

theorem releaseProcess_run (h : s.asl.Inv s.semAdd) (p : Fin n) :
    releaseProcess cfg p s = .ok ⟨⟩ (s.release cfg p) := by
  cases hk : s.semAdd p with
  | none =>
      have hk' : (s.pcbFree_table p).p_semAdd = none := hk
      simp only [releaseProcess, bind_run, get_run, ite_run, hk', ne_eq, not_true_eq_false,
        if_false, Nucleus.release, hk, pure_run]
  | some k =>
      have hk' : (s.pcbFree_table p).p_semAdd = some k := hk
      by_cases hsoft : isSoftBlocked cfg p s = true
      · have hrun := outBlocked_run (s := { s with softblocked_count := s.softblocked_count - 1 })
          h hk
        simp only [releaseProcess, bind_run, get_run, ite_run, hk', ne_eq, reduceCtorEq,
          not_false_eq_true, if_true, hsoft, modify_run, hrun, Nucleus.release, hk, pure_run]
      · have hrun := outBlocked_run h hk
        simp only [releaseProcess, bind_run, get_run, ite_run, hk', ne_eq, reduceCtorEq,
          not_false_eq_true, if_true, hsoft, Bool.false_eq_true, if_false, hrun, Nucleus.release,
          hk, pure_run]
        rw [show s.softblocked_count - 0 = s.softblocked_count from BitVec.sub_zero _]

theorem outProcQ_snd (l : List (Fin n)) (p : Fin n) : (outProcQ l p).2 = l.erase p := by
  unfold outProcQ
  split
  · rfl
  · rename_i h
    exact (List.erase_of_not_mem h).symm

theorem detachProcess_run (h : Linked s) (p : Fin n) :
    detachProcess cfg p s = .ok ⟨⟩ (s.detach cfg p) := by
  have hasl : (removeFromTree p s).asl.Inv (removeFromTree p s).semAdd := by
    rw [removeFromTree_semAdd]
    exact h.asl
  simp only [detachProcess, bind_run, modify_run, outChild_eq h.forest, outProcQ_snd]
  rw [releaseProcess_run]
  · rfl
  · exact hasl

/-! ## Detaching is such a change -/

theorem release_none (hk : s.semAdd p = none) : s.release cfg p = s := by
  rw [Nucleus.release, hk]

theorem release_some {k : Word} (hk : s.semAdd p = some k) :
    s.release cfg p =
      ({ s with softblocked_count :=
          s.softblocked_count - if isSoftBlocked cfg p s then 1 else 0 }).unblock k p := by
  rw [Nucleus.release, hk]

theorem release_table (s : Nucleus n) (p q : Fin n) :
    (s.release cfg p).pcbFree_table q =
      { s.pcbFree_table q with
        p_semAdd := if q = p then none else (s.pcbFree_table q).p_semAdd } := by
  cases hk : s.semAdd p with
  | some k =>
      rw [release_some hk, Nucleus.unblock, Nucleus.modifyPcb_table]
      split <;> rfl
  | none =>
      rw [release_none hk]
      by_cases e : q = p
      · rw [if_pos e, e, ← show (s.pcbFree_table p).p_semAdd = none from hk]
      · rw [if_neg e]

theorem release_rest (s : Nucleus n) (p : Fin n) :
    s.release cfg p =
      { s with
        pcbFree_table := (s.release cfg p).pcbFree_table
        asl := (s.release cfg p).asl
        softblocked_count := (s.release cfg p).softblocked_count } := by
  cases hk : s.semAdd p with
  | some k => rw [release_some hk]; rfl
  | none => rw [release_none hk]

theorem isSoftBlocked_of_none (hk : s.semAdd p = none) : isSoftBlocked cfg p s = false := by
  rw [isSoftBlocked, show (s.pcbFree_table p).p_semAdd = none from hk]

theorem release_soft (s : Nucleus n) (p : Fin n) :
    (s.release cfg p).softblocked_count =
      s.softblocked_count - BitVec.ofNat 32 ([p].countP fun q ↦ isSoftBlocked cfg q s) := by
  rw [List.countP_singleton]
  cases hk : s.semAdd p with
  | some k =>
      rw [release_some hk]
      change s.softblocked_count - _ = _
      split <;> rfl
  | none =>
      rw [release_none hk, isSoftBlocked_of_none hk]
      exact (BitVec.sub_zero _).symm

variable (cfg) in
theorem release_asl (h : s.asl.Inv s.semAdd) (p : Fin n) :
    (s.release cfg p).asl.Inv (s.release cfg p).semAdd ∧
      ∀ k, (s.release cfg p).asl.queue k = (s.asl.queue k).filter (· ∉ [p]) := by
  cases hk : s.semAdd p with
  | none =>
      rw [release_none hk]
      refine ⟨h, fun k ↦ (filter_notMem_singleton fun hmem ↦ ?_).symm⟩
      rw [h.mem_queue.mp hmem] at hk
      cases hk
  | some k =>
      rw [release_some hk]
      refine ⟨Nucleus.unblock_asl h hk, fun k' ↦ ?_⟩
      refine (Nucleus.unblock_queue h hk k').trans ?_
      split
      · rename_i e
        rw [e]
        exact erase_eq_filter_notMem h.queue_nodup p
      · rename_i e
        refine (filter_notMem_singleton fun hmem ↦ e ?_).symm
        exact (Option.some.inj (hk.symm.trans (h.mem_queue.mp hmem))).symm

theorem Linked.detach (h : Linked s) (p : Fin n) : Torn cfg [p] [] s (s.detach cfg p) := by
  have hsem : (removeFromTree p s).semAdd = s.semAdd := removeFromTree_semAdd s p
  set u : Nucleus n := { removeFromTree p s with
    process_count := (removeFromTree p s).process_count - 1 } with hu
  have hasl : u.asl.Inv u.semAdd := by
    change s.asl.Inv (removeFromTree p s).semAdd
    rw [hsem]
    exact h.asl
  have hdetach : s.detach cfg p = (u.release cfg p).setReadyQueue
      (((u.release cfg p).readyQueue ((u.release cfg p).prio p)).erase p)
      ((u.release cfg p).prio p) := rfl
  have hready : ∀ pr, (u.release cfg p).readyQueue pr = s.readyQueue pr := by
    rw [release_rest]
    rintro (_ | _) <;> rfl
  have hprio : (u.release cfg p).prio p = s.prio p := by
    rw [Nucleus.prio, release_table]
    change ((removeFromTree p s).pcbFree_table p).p_prio = _
    rw [removeFromTree_table]
    rfl
  have hsoft : ∀ q, isSoftBlocked cfg q u = isSoftBlocked cfg q s := fun q ↦ by
    rw [isSoftBlocked, isSoftBlocked,
      show (u.pcbFree_table q).p_semAdd = (s.pcbFree_table q).p_semAdd from congrFun hsem q]
  rw [hdetach, hready, hprio]
  constructor
  · intro q
    rw [Nucleus.setReadyQueue_table, release_table]
    change ({ (removeFromTree p s).pcbFree_table q with p_semAdd := _ } : Pcb n) = _
    rw [removeFromTree_table, erase_eq_filter_notMem (h.forest.nodup q)]
    unfold Pcb.torn
    simp only [List.mem_singleton, List.not_mem_nil, if_false]
    rfl
  · rw [Nucleus.setReadyQueue_free, release_rest]
    rfl
  · rw [Nucleus.setReadyQueue_pids, release_rest]
    simp only [List.not_mem_nil, not_false_eq_true, decide_true, List.filter_true]
    rfl
  · intro pr
    by_cases e : pr = s.prio p
    · rw [e, Nucleus.readyQueue_setReadyQueue]
      exact erase_eq_filter_notMem (h.ready_nodup _) p
    · rw [Nucleus.readyQueue_setReadyQueue_ne _ _ e, hready]
      exact (filter_notMem_singleton fun hmem ↦ e (h.prio pr p hmem).symm).symm
  · rw [Nucleus.setReadyQueue_asl]
    refine (release_asl cfg hasl p).1.congr fun q ↦ ?_
    rw [Nucleus.semAdd, Nucleus.setReadyQueue_table]
    rfl
  · intro k
    rw [Nucleus.setReadyQueue_asl, (release_asl cfg hasl p).2]
    rfl
  · rw [Nucleus.setReadyQueue_count, release_rest]
    rfl
  · rw [Nucleus.setReadyQueue_soft, release_soft]
    simp only [hsoft]
    rfl
  · rw [release_rest]
    cases s.prio p <;> rfl

/-! ## Freeing and unlinking -/

theorem Linked.free (h : Linked s) (p : Fin n) : Torn cfg [] [p] s (freePcb p s) := by
  have hsem : (freePcb p s).semAdd = s.semAdd :=
    funext fun q ↦ Nucleus.modifyPcb_field Pcb.p_semAdd (by intro; rfl) _ p q
  constructor
  · intro q
    rw [freePcb, Nucleus.modifyPcb_table]
    unfold Pcb.torn
    simp only [List.mem_singleton, List.not_mem_nil, if_false, not_false_eq_true, decide_true,
      List.filter_true]
    split <;> rfl
  · rfl
  · exact erase_eq_filter_notMem h.pids_nodup p
  · intro pr
    simp only [List.not_mem_nil, not_false_eq_true, decide_true, List.filter_true]
    cases pr <;> rfl
  · rw [hsem]
    exact h.asl
  · intro k
    simp only [List.not_mem_nil, not_false_eq_true, decide_true, List.filter_true]
    rfl
  · exact (BitVec.sub_zero _).symm
  · exact (BitVec.sub_zero _).symm
  · rfl

theorem removeFromTree_parent (s : Nucleus n) (c q : Fin n) :
    (removeFromTree c s).parent q = if q = c then none else s.parent q := by
  rw [Nucleus.parent, removeFromTree_table]
  rfl

theorem removeFromTree_children (s : Nucleus n) (c q : Fin n) :
    (removeFromTree c s).children q = (s.children q).erase c := by
  rw [Nucleus.children, removeFromTree_table]

theorem Linked.unlink (h : Linked s) (c : Fin n) : Linked (removeFromTree c s) where
  forest := by
    refine ⟨fun p q ↦ ?_, fun p ↦ ?_⟩
    · rw [removeFromTree_children, removeFromTree_parent, (h.forest.nodup p).mem_erase_iff,
        h.forest.link]
      by_cases e : q = c <;> simp [e]
    · rw [removeFromTree_children]
      exact (h.forest.nodup p).erase c
  asl := by
    rw [removeFromTree_semAdd]
    exact h.asl
  ready_nodup pr := by
    have := h.ready_nodup pr
    cases pr <;> exact this
  prio pr p hp := by
    rw [Nucleus.prio, removeFromTree_table]
    exact h.prio pr p (by cases pr <;> exact hp)
  pids_nodup := h.pids_nodup

/-- A child unlinked just before it is detached has only been detached. -/
theorem Torn.of_unlink (hs : Linked s) (h : Torn cfg D F (removeFromTree c s) t) (hc : c ∈ D) :
    Torn cfg D F s t where
  table q := by
    rw [h.table, removeFromTree_table, (hs.forest.nodup q).erase_eq_filter]
    unfold Pcb.torn
    simp only [List.filter_filter]
    congr 1
    · by_cases e : q = c
      · rw [if_pos (e ▸ hc), if_pos (e ▸ hc)]
      · rw [if_neg e]
    · refine List.filter_congr fun x _ ↦ ?_
      by_cases e : x = c
      · simp [e, hc]
      · simp [e]
  free := h.free
  pidList := h.pidList
  ready pr := by
    rw [h.ready]
    cases pr <;> rfl
  asl := h.asl
  queue := h.queue
  count := h.count
  soft := by
    have hsoft : ∀ q, isSoftBlocked cfg q (removeFromTree c s) = isSoftBlocked cfg q s := fun q ↦ by
      rw [isSoftBlocked, isSoftBlocked, removeFromTree_table]
    rw [h.soft]
    simp only [hsoft]
    rfl
  kept := h.kept

end PandosPlus
