import PandosPlus.Phase2.Effects

/-!
# One place for every PCB

`p_list` is a single link, so a PCB can be threaded in one list at a time: the free
list, a ready queue or the queue of a semaphore.  `Core` counts, for every PCB, the
lists it is in, together with those the kernel has in its hands (`held`); the sum is
one.  It also says which list that may be: `p_prio` and `p_semAdd` agree with it, the
process tree links the PCBs that are not free, and `process_count` counts those.

Every change the kernel makes moves PCBs between these places, one lemma for each.
Most of the state plays no part: a change that leaves it alone is `Quiet`.
-/

namespace PandosPlus

variable {n : Nat}

/-! ## Reading the tables -/

namespace Nucleus

/-- `p_parent` of every PCB. -/
def parent (s : Nucleus n) (p : Fin n) : Option (Fin n) := (s.pcbFree_table p).p_parent

/-- `p_child` of every PCB. -/
def children (s : Nucleus n) (p : Fin n) : List (Fin n) := (s.pcbFree_table p).p_child

/-- One for a PCB in the queue of a semaphore. -/
def waits (s : Nucleus n) (p : Fin n) : Nat := (s.semAdd p).toList.length

/-- How often a PCB is in the two ready queues. -/
def readies (s : Nucleus n) (p : Fin n) : Nat :=
  s.low_readyqueue.count p + s.high_readyqueue.count p

end Nucleus

/-- The process tree: the lists of children mirror the links to the parent. -/
structure Forest (s : Nucleus n) : Prop where
  link : ∀ p q, q ∈ s.children p ↔ s.parent q = some p
  nodup : ∀ p, (s.children p).Nodup

/-- The invariant of the lists and links, with the PCBs `held` in no list. -/
structure Core (s : Nucleus n) (held : List (Fin n)) : Prop where
  pids : PidInv s
  asl : s.asl.Inv s.semAdd
  /-- Every PCB is in one place. -/
  place : ∀ p, s.pcbFree_h.count p + s.readies p + s.waits p + held.count p = 1
  /-- A ready process is in the queue of its own priority. -/
  prio : ∀ pr, ∀ p ∈ s.readyQueue pr, s.prio p = pr
  forest : Forest s
  /-- A free PCB is in no tree. -/
  free_leaf : ∀ p ∈ s.pcbFree_h, s.parent p = none ∧ s.children p = []
  count : s.process_count.toNat + s.pcbFree_h.length = n

variable {s t u : Nucleus n} {held : List (Fin n)} {p q c : Fin n} {k : Word}

namespace Core

theorem perm {held' : List (Fin n)} (h : Core s held) (hp : held.Perm held') : Core s held' :=
  { h with place := fun p ↦ by rw [← hp.count_eq]; exact h.place p }

theorem waits_of_semAdd (hk : s.semAdd p = some k) : s.waits p = 1 := by
  rw [Nucleus.waits, hk]
  rfl

theorem waits_eq_zero_iff : s.waits p = 0 ↔ s.semAdd p = none := by
  rw [Nucleus.waits]
  cases s.semAdd p <;> simp

/-- A PCB the kernel holds is in no list. -/
theorem of_held (h : Core s held) (hp : p ∈ held) :
    p ∉ s.pcbFree_h ∧ s.readies p = 0 ∧ s.semAdd p = none ∧ held.count p = 1 := by
  have hc := h.place p
  have hpos := List.count_pos_iff.mpr hp
  refine ⟨fun hf ↦ ?_, by omega, waits_eq_zero_iff.mp (by omega), by omega⟩
  have := List.count_pos_iff.mpr hf
  omega

theorem readies_pos {pr : Prio} (hp : p ∈ s.readyQueue pr) : 0 < s.readies p := by
  have := List.count_pos_iff.mpr hp
  cases pr <;> simp only [Nucleus.readyQueue] at this <;> unfold Nucleus.readies <;> omega

/-- A ready process is in no other place. -/
theorem of_ready (h : Core s held) {pr : Prio} (hp : p ∈ s.readyQueue pr) :
    p ∉ s.pcbFree_h ∧ s.semAdd p = none ∧ p ∉ held := by
  have hc := h.place p
  have hr := readies_pos hp
  refine ⟨fun hf ↦ ?_, waits_eq_zero_iff.mp (by omega), fun hh ↦ ?_⟩
  · have := List.count_pos_iff.mpr hf
    omega
  · have := List.count_pos_iff.mpr hh
    omega

/-- A blocked process is in no other place. -/
theorem of_blocked (h : Core s held) (hp : s.semAdd p = some k) :
    p ∉ s.pcbFree_h ∧ s.readies p = 0 ∧ p ∉ held := by
  have hc := h.place p
  have hw := waits_of_semAdd hp
  refine ⟨fun hf ↦ ?_, by omega, fun hh ↦ ?_⟩
  · have := List.count_pos_iff.mpr hf
    omega
  · have := List.count_pos_iff.mpr hh
    omega

theorem ready_nodup (h : Core s held) (pr : Prio) : (s.readyQueue pr).Nodup := by
  refine List.nodup_iff_count_le_one.mpr fun p ↦ ?_
  have hc := h.place p
  cases pr <;> simp only [Nucleus.readyQueue] <;> unfold Nucleus.readies at hc <;> omega

end Core

/-! ## Changes that move nothing -/

/-- The fields of a PCB that link it. -/
def Pcb.links (x : Pcb n) : Option (Fin n) × List (Fin n) × Option Word × Prio × Word :=
  (x.p_parent, x.p_child, x.p_semAdd, x.p_prio, x.p_pid)

/-- The lists of the nucleus. -/
def Nucleus.lists (s : Nucleus n) :
    List (Fin n) × List (Fin n) × Asl n × Word × List (Fin n) × List (Fin n) :=
  (s.pcbFree_h, s.pid_list_h, s.asl, s.process_count, s.low_readyqueue, s.high_readyqueue)

/-- No PCB changes its place. -/
structure Quiet (s t : Nucleus n) : Prop where
  links : ∀ q, (t.pcbFree_table q).links = (s.pcbFree_table q).links
  lists : t.lists = s.lists

namespace Quiet

@[refl] theorem refl (s : Nucleus n) : Quiet s s := ⟨fun _ ↦ rfl, rfl⟩

theorem trans (h : Quiet s t) (h' : Quiet t u) : Quiet s u :=
  ⟨fun q ↦ (h'.links q).trans (h.links q), h'.lists.trans h.lists⟩

theorem modifyPcb {f : Pcb n → Pcb n} (s : Nucleus n) (p : Fin n)
    (hf : ∀ x, (f x).links = x.links) : Quiet s (s.modifyPcb p f) := by
  refine ⟨fun q ↦ ?_, rfl⟩
  exact Nucleus.modifyPcb_field Pcb.links hf s p q

theorem flush (cfg : Config n) (s : Nucleus n) : Quiet s (s.flush cfg) := ⟨fun _ ↦ rfl, rfl⟩

theorem charge (cfg : Config n) (c : Fin n) (s : Nucleus n) : Quiet s (s.charge cfg c) :=
  (flush cfg s).trans (modifyPcb _ _ fun _ ↦ rfl)

theorem saveState (p : Fin n) (st : State) (s : Nucleus n) : Quiet s (s.saveState p st) :=
  modifyPcb _ _ fun _ ↦ rfl

theorem store (s : Nucleus n) (a v : Word) : Quiet s (s.store a v) := ⟨fun _ ↦ rfl, rfl⟩

theorem load (cfg : Config n) (p : Fin n) (s : Nucleus n) : Quiet s (s.load cfg p) := by
  unfold Nucleus.load
  split <;> refine ⟨fun q ↦ ?_, rfl⟩ <;> by_cases e : q = p <;>
    simp [Nucleus.flush, startPLT, Nucleus.modifyPcb, Pcb.links, e]

theorem parent (h : Quiet s t) : t.parent = s.parent :=
  funext fun q ↦ congrArg Prod.fst (h.links q)

theorem children (h : Quiet s t) : t.children = s.children :=
  funext fun q ↦ congrArg (·.2.1) (h.links q)

theorem semAdd (h : Quiet s t) : t.semAdd = s.semAdd :=
  funext fun q ↦ congrArg (·.2.2.1) (h.links q)

theorem prio (h : Quiet s t) : t.prio = s.prio :=
  funext fun q ↦ congrArg (·.2.2.2.1) (h.links q)

theorem pid (h : Quiet s t) : t.pid = s.pid :=
  funext fun q ↦ congrArg (·.2.2.2.2) (h.links q)

theorem free (h : Quiet s t) : t.pcbFree_h = s.pcbFree_h := congrArg Prod.fst h.lists

theorem pidList (h : Quiet s t) : t.pid_list_h = s.pid_list_h := congrArg (·.2.1) h.lists

theorem asl (h : Quiet s t) : t.asl = s.asl := congrArg (·.2.2.1) h.lists

theorem count (h : Quiet s t) : t.process_count = s.process_count :=
  congrArg (·.2.2.2.1) h.lists

theorem low (h : Quiet s t) : t.low_readyqueue = s.low_readyqueue :=
  congrArg (·.2.2.2.2.1) h.lists

theorem high (h : Quiet s t) : t.high_readyqueue = s.high_readyqueue :=
  congrArg (·.2.2.2.2.2) h.lists

theorem readyQueue (h : Quiet s t) (pr : Prio) : t.readyQueue pr = s.readyQueue pr := by
  cases pr
  · exact h.low
  · exact h.high

end Quiet

theorem Core.quiet (h : Core s held) (hq : Quiet s t) : Core t held where
  pids := by
    refine ⟨?_, ?_, ?_⟩
    · rw [hq.pid, hq.pidList]; exact h.pids.ascending
    · rw [hq.pidList, hq.free]; exact h.pids.partition
    · rw [hq.free, hq.pid]; exact h.pids.free_pid
  asl := by rw [hq.asl, hq.semAdd]; exact h.asl
  place := by
    intro p
    rw [Nucleus.readies, Nucleus.waits, hq.free, hq.low, hq.high, hq.semAdd]
    exact h.place p
  prio := by
    intro pr p hp
    rw [hq.readyQueue] at hp
    rw [hq.prio]
    exact h.prio pr p hp
  forest := by
    refine ⟨?_, ?_⟩
    · rw [hq.children, hq.parent]; exact h.forest.link
    · rw [hq.children]; exact h.forest.nodup
  free_leaf := by rw [hq.free, hq.parent, hq.children]; exact h.free_leaf
  count := by rw [hq.count, hq.free]; exact h.count

/-! ## Ready queues -/

/-- Putting `l` in place of a ready queue. -/
theorem Nucleus.setReadyQueue_readies (s : Nucleus n) (l : List (Fin n)) (pr : Prio) (p : Fin n) :
    (s.setReadyQueue l pr).readies p + (s.readyQueue pr).count p = s.readies p + l.count p := by
  cases pr <;> simp only [setReadyQueue, readyQueue, readies] <;> omega

/-- Changing a ready queue, with `held` changed to make up for it. -/
theorem Core.setReadyQueue {held' l : List (Fin n)} {pr : Prio} (h : Core s held)
    (hcount : ∀ q, l.count q + held'.count q = (s.readyQueue pr).count q + held.count q)
    (hprio : ∀ q ∈ l, s.prio q = pr) : Core (s.setReadyQueue l pr) held' where
  pids := by
    have h' := h.pids
    refine ⟨?_, ?_, ?_⟩
    · simpa [Nucleus.pid, SortedList.Ascending] using h'.ascending
    · simpa using h'.partition
    · simpa [Nucleus.pid] using h'.free_pid
  asl := by
    have hsem : (s.setReadyQueue l pr).semAdd = s.semAdd := by funext q; simp [Nucleus.semAdd]
    rw [hsem, Nucleus.setReadyQueue_asl]
    exact h.asl
  place := by
    intro q
    have hp := h.place q
    have hr := s.setReadyQueue_readies l pr q
    have hc := hcount q
    have hw : (s.setReadyQueue l pr).waits q = s.waits q := by simp [Nucleus.waits, Nucleus.semAdd]
    rw [Nucleus.setReadyQueue_free, hw]
    omega
  prio := by
    intro pr' q hq
    have hprio' : (s.setReadyQueue l pr).prio q = s.prio q := by simp [Nucleus.prio]
    rw [hprio']
    by_cases e : pr' = pr
    · subst e
      rw [Nucleus.readyQueue_setReadyQueue] at hq
      exact hprio q hq
    · rw [Nucleus.readyQueue_setReadyQueue_ne _ _ e] at hq
      exact h.prio pr' q hq
  forest := by
    have h' := h.forest
    refine ⟨fun p q ↦ ?_, fun p ↦ ?_⟩
    · simpa [Nucleus.children, Nucleus.parent] using h'.link p q
    · simpa [Nucleus.children] using h'.nodup p
  free_leaf := by
    intro q hq
    rw [Nucleus.setReadyQueue_free] at hq
    simpa [Nucleus.children, Nucleus.parent] using h.free_leaf q hq
  count := by simpa using h.count

theorem Core.makeReady (h : Core s (p :: held)) : Core (s.makeReady p) held := by
  refine h.setReadyQueue (fun q ↦ ?_) (fun q hq ↦ ?_)
  · rw [List.count_append, List.count_cons, List.count_cons, List.count_nil]
    omega
  · rcases List.mem_append.mp hq with hq | hq
    · exact h.prio _ q hq
    · rw [List.mem_singleton.mp hq]

/-- The PCB that `setProcessReady` drops, if it does. -/
def Nucleus.dropped (s : Nucleus n) (p : Fin n) : List (Fin n) :=
  if s.pid p = FREE_PCB_PID then [p] else []

theorem Core.wake (h : Core s (p :: held)) : Core (s.wake p) (s.dropped p ++ held) := by
  unfold Nucleus.wake Nucleus.dropped
  split
  · exact h
  · exact h.makeReady

theorem Core.pick {pr : Prio} {rest : List (Fin n)} (h : Core s held)
    (hq : s.readyQueue pr = p :: rest) : Core (s.pick p pr rest) (p :: held) := by
  have hset : Core (s.setReadyQueue rest pr) (p :: held) := by
    refine h.setReadyQueue (fun q ↦ ?_) (fun q hmem ↦ ?_)
    · rw [hq, List.count_cons, List.count_cons]
      omega
    · exact h.prio pr q (by rw [hq]; exact List.mem_cons_of_mem _ hmem)
  exact hset.quiet ⟨fun _ ↦ rfl, rfl⟩

/-! ## Queues of semaphores -/

/-! ## Queues of semaphores -/

namespace Nucleus

variable (s) (k : Word) (p : Fin n)

/-- Apart from `p_semAdd`, blocking leaves the links alone. -/
theorem block_links :
    (s.block k p).pid = s.pid ∧ (s.block k p).prio = s.prio ∧ (s.block k p).parent = s.parent ∧
      (s.block k p).children = s.children := by
  refine ⟨?_, ?_, ?_, ?_⟩ <;> funext q
  · exact modifyPcb_field Pcb.p_pid (by intro; rfl) _ p q
  · exact modifyPcb_field Pcb.p_prio (by intro; rfl) _ p q
  · exact modifyPcb_field Pcb.p_parent (by intro; rfl) _ p q
  · exact modifyPcb_field Pcb.p_child (by intro; rfl) _ p q

theorem unblock_links :
    (s.unblock k p).pid = s.pid ∧ (s.unblock k p).prio = s.prio ∧
      (s.unblock k p).parent = s.parent ∧ (s.unblock k p).children = s.children := by
  refine ⟨?_, ?_, ?_, ?_⟩ <;> funext q
  · exact modifyPcb_field Pcb.p_pid (by intro; rfl) _ p q
  · exact modifyPcb_field Pcb.p_prio (by intro; rfl) _ p q
  · exact modifyPcb_field Pcb.p_parent (by intro; rfl) _ p q
  · exact modifyPcb_field Pcb.p_child (by intro; rfl) _ p q

end Nucleus

/-- A change of the descriptors and of `p_semAdd`, with `held` changed to make up for
it. -/
theorem Core.changeSem {held' : List (Fin n)} (h : Core s held) 
    (hlists : t.lists = { s with asl := t.asl }.lists) (hpid : t.pid = s.pid) (hprio : t.prio = s.prio) (hparent : t.parent = s.parent)
    (hchildren : t.children = s.children) (hasl : t.asl.Inv t.semAdd)
    (hplace : ∀ q, t.waits q + held'.count q = s.waits q + held.count q) : Core t held' := by
  have hfree : t.pcbFree_h = s.pcbFree_h := congrArg Prod.fst hlists
  have hpids : t.pid_list_h = s.pid_list_h := congrArg (·.2.1) hlists
  have hcount : t.process_count = s.process_count := congrArg (·.2.2.2.1) hlists
  have hlow : t.low_readyqueue = s.low_readyqueue := congrArg (·.2.2.2.2.1) hlists
  have hhigh : t.high_readyqueue = s.high_readyqueue := congrArg (·.2.2.2.2.2) hlists
  have hready : ∀ pr, t.readyQueue pr = s.readyQueue pr := by
    rintro (_ | _)
    · exact hlow
    · exact hhigh
  refine ⟨⟨?_, ?_, ?_⟩, hasl, fun q ↦ ?_, fun pr q hq ↦ ?_, ⟨?_, ?_⟩, ?_, ?_⟩
  · rw [hpid, hpids]; exact h.pids.ascending
  · rw [hpids, hfree]; exact h.pids.partition
  · rw [hfree, hpid]; exact h.pids.free_pid
  · have hp := h.place q
    have hq := hplace q
    unfold Nucleus.readies at hp ⊢
    rw [hfree, hlow, hhigh]
    omega
  · rw [hready] at hq
    rw [hprio]
    exact h.prio pr q hq
  · rw [hchildren, hparent]; exact h.forest.link
  · rw [hchildren]; exact h.forest.nodup
  · rw [hfree, hparent, hchildren]; exact h.free_leaf
  · rw [hcount, hfree]; exact h.count

theorem Core.block (h : Core s (p :: held)) (k : Word) : Core (s.block k p) held := by
  have hsem : s.semAdd p = none := (h.of_held List.mem_cons_self).2.2.1
  obtain ⟨hpid, hprio, hparent, hchildren⟩ := s.block_links k p
  refine h.changeSem rfl hpid hprio hparent hchildren (Nucleus.block_asl h.asl hsem k) fun q ↦ ?_
  rw [Nucleus.waits, Nucleus.waits, Nucleus.block_semAdd, List.count_cons]
  by_cases e : q = p
  · subst e
    simp [hsem]
    omega
  · simp [e, Ne.symm e]

theorem Core.unblock (h : Core s held) (hk : s.semAdd p = some k) :
    Core (s.unblock k p) (p :: held) := by
  obtain ⟨hpid, hprio, hparent, hchildren⟩ := s.unblock_links k p
  refine h.changeSem rfl hpid hprio hparent hchildren (Nucleus.unblock_asl h.asl hk) fun q ↦ ?_
  rw [Nucleus.waits, Nucleus.waits, Nucleus.unblock_semAdd, List.count_cons]
  by_cases e : q = p
  · subst e
    simp [hk]
    omega
  · simp [e, Ne.symm e]

/-! ## A new process -/

/-- `allocPcb` followed by `process_count++`. -/
def Nucleus.enroll (p : Fin n) (rest : List (Fin n)) (s : Nucleus n) : Nucleus n :=
  { s.alloc p rest with process_count := s.process_count + 1 }

theorem Nucleus.enroll_table (p : Fin n) (rest : List (Fin n)) (s : Nucleus n) (q : Fin n) :
    (s.enroll p rest).pcbFree_table q =
      if q = p then (s.pcbFree_table q).fresh (nextPid s) else s.pcbFree_table q :=
  s.alloc_table p rest q

/-- A PCB in the free list waits nowhere. -/
theorem Core.semAdd_free (h : Core s held) (hp : p ∈ s.pcbFree_h) : s.semAdd p = none := by
  have hc := h.place p
  have := List.count_pos_iff.mpr hp
  exact Core.waits_eq_zero_iff.mp (by omega)

/-- Apart from the pid, the links of a free PCB are those of a fresh one. -/
theorem Core.enroll_links (h : Core s held) (hp : p ∈ s.pcbFree_h) (rest : List (Fin n)) :
    (s.enroll p rest).semAdd = s.semAdd ∧ (s.enroll p rest).parent = s.parent ∧
      (s.enroll p rest).children = s.children ∧ (s.enroll p rest).prio = s.prio := by
  have hleaf := h.free_leaf p hp
  refine ⟨?_, ?_, ?_, ?_⟩ <;> funext q
  · rw [Nucleus.semAdd, Nucleus.enroll_table]
    split
    · rename_i e; rw [e, h.semAdd_free hp]; rfl
    · rfl
  · rw [Nucleus.parent, Nucleus.enroll_table]
    split
    · rename_i e; rw [e, hleaf.1]; rfl
    · rfl
  · rw [Nucleus.children, Nucleus.enroll_table]
    split
    · rename_i e; rw [e, hleaf.2]; rfl
    · rfl
  · rw [Nucleus.prio, Nucleus.enroll_table]
    split <;> rfl

theorem Core.enroll (h : Core s held) (hn : n < 2 ^ 32) {rest : List (Fin n)}
    (hf : s.pcbFree_h = p :: rest) : Core (s.enroll p rest) (p :: held) := by
  have hp : p ∈ s.pcbFree_h := by rw [hf]; exact List.mem_cons_self
  obtain ⟨hsem, hparent, hchildren, hprio⟩ := h.enroll_links hp rest
  have hcount := h.count
  rw [hf, List.length_cons] at hcount
  refine ⟨?_, ?_, fun q ↦ ?_, fun pr q hq ↦ ?_, ⟨?_, ?_⟩, fun q hq ↦ ?_, ?_⟩
  · have hpids := h.pids.alloc hn hf
    exact ⟨hpids.ascending, hpids.partition, hpids.free_pid⟩
  · rw [hsem]; exact h.asl
  · have hplace := h.place q
    rw [hf, List.count_cons] at hplace
    rw [Nucleus.waits, hsem, List.count_cons]
    change rest.count q + s.readies q + s.waits q + _ = 1
    omega
  · rw [hprio]
    exact h.prio pr q (by cases pr <;> exact hq)
  · rw [hchildren, hparent]; exact h.forest.link
  · rw [hchildren]; exact h.forest.nodup
  · rw [hparent, hchildren]
    exact h.free_leaf q (by rw [hf]; exact List.mem_cons_of_mem _ hq)
  · change (s.process_count + 1).toNat + rest.length = n
    bv_omega

theorem fillPcb_links (s : Nucleus n) (p : Fin n) (state : State) (pr : Prio)
    (supportp : Option Word) :
    (fillPcb p state pr supportp s).semAdd = s.semAdd ∧
      (fillPcb p state pr supportp s).parent = s.parent ∧
      (fillPcb p state pr supportp s).children = s.children ∧
      (fillPcb p state pr supportp s).pid = s.pid := by
  refine ⟨?_, ?_, ?_, ?_⟩ <;> funext q
  · exact Nucleus.modifyPcb_field Pcb.p_semAdd (by intro; rfl) s p q
  · exact Nucleus.modifyPcb_field Pcb.p_parent (by intro; rfl) s p q
  · exact Nucleus.modifyPcb_field Pcb.p_child (by intro; rfl) s p q
  · exact Nucleus.modifyPcb_field Pcb.p_pid (by intro; rfl) s p q

/-- Setting `p_prio` of a PCB that is in no list. -/
theorem Core.fill (h : Core s (p :: held)) (state : State) (pr : Prio) (supportp : Option Word) :
    Core (fillPcb p state pr supportp s) (p :: held) := by
  have hready := (h.of_held List.mem_cons_self).2.1
  obtain ⟨hsem, hparent, hchildren, hpid⟩ := fillPcb_links s p state pr supportp
  refine ⟨⟨?_, h.pids.partition, ?_⟩, ?_, fun q ↦ ?_, fun pr' q hq ↦ ?_, ⟨?_, ?_⟩, ?_, h.count⟩
  · rw [hpid]; exact h.pids.ascending
  · rw [hpid]; exact h.pids.free_pid
  · rw [hsem]; exact h.asl
  · rw [Nucleus.waits, hsem]; exact h.place q
  · have hq' : q ∈ s.readyQueue pr' := by cases pr' <;> exact hq
    have hne : q ≠ p := by
      rintro rfl
      have := Core.readies_pos hq'
      omega
    rw [Nucleus.prio, fillPcb, Nucleus.modifyPcb]
    simp only [if_neg hne]
    exact h.prio pr' q hq'
  · rw [hchildren, hparent]; exact h.forest.link
  · rw [hchildren]; exact h.forest.nodup
  · rw [hparent, hchildren]; exact h.free_leaf

theorem insertChild_parent (s : Nucleus n) (c p q : Fin n) :
    (insertChild c p s).parent q = if q = p then some c else s.parent q := by
  rw [Nucleus.parent, insertChild, Nucleus.modifyPcb_table]
  split
  · rfl
  · exact Nucleus.modifyPcb_field Pcb.p_parent (by intro; rfl) s c q

theorem insertChild_children (s : Nucleus n) (c p q : Fin n) :
    (insertChild c p s).children q = if q = c then s.children q ++ [p] else s.children q := by
  rw [Nucleus.children, insertChild, Nucleus.modifyPcb_field Pcb.p_child (by intro; rfl),
    Nucleus.modifyPcb_table]
  split <;> rfl

theorem insertChild_links (s : Nucleus n) (c p : Fin n) :
    (insertChild c p s).pid = s.pid ∧ (insertChild c p s).prio = s.prio ∧
      (insertChild c p s).semAdd = s.semAdd := by
  have hfield : ∀ {α : Type} (g : Pcb n → α), (∀ x a, g { x with p_child := a } = g x) →
      (∀ x a, g { x with p_parent := a } = g x) → ∀ q,
      g ((insertChild c p s).pcbFree_table q) = g (s.pcbFree_table q) := by
    intro α g hg hg' q
    rw [insertChild, Nucleus.modifyPcb_field g fun x ↦ hg' x _,
      Nucleus.modifyPcb_field g fun x ↦ hg x _]
  exact ⟨funext (hfield Pcb.p_pid (fun _ _ ↦ rfl) fun _ _ ↦ rfl),
    funext (hfield Pcb.p_prio (fun _ _ ↦ rfl) fun _ _ ↦ rfl),
    funext (hfield Pcb.p_semAdd (fun _ _ ↦ rfl) fun _ _ ↦ rfl)⟩

/-- A root becomes a child. -/
theorem Forest.insertChild (h : Forest s) (hp : s.parent p = none) :
    Forest (insertChild c p s) := by
  have hp' : ∀ r, p ∉ s.children r := fun r hmem ↦ by
    rw [(h.link r p).mp hmem] at hp
    cases hp
  refine ⟨fun r q ↦ ?_, fun r ↦ ?_⟩
  · rw [insertChild_parent, insertChild_children]
    by_cases er : r = c <;> by_cases eq : q = p
    · simp [er, eq]
    · simp [er, eq, h.link]
    · simp [er, eq, hp', Ne.symm er]
    · simp [er, eq, h.link]
  · rw [insertChild_children]
    split
    · refine List.nodup_append.mpr ⟨h.nodup r, List.nodup_singleton p, ?_⟩
      rintro a ha b hb rfl
      exact hp' r (List.mem_singleton.mp hb ▸ ha)
    · exact h.nodup r

theorem Core.insertChild (h : Core s held) (hc : c ∉ s.pcbFree_h) (hp : p ∉ s.pcbFree_h)
    (hparent : s.parent p = none) : Core (insertChild c p s) held := by
  obtain ⟨hpid, hprio, hsem⟩ := insertChild_links s c p
  refine ⟨⟨?_, h.pids.partition, ?_⟩, ?_, fun q ↦ ?_, fun pr q hq ↦ ?_,
    h.forest.insertChild hparent, fun q hq ↦ ?_, h.count⟩
  · rw [hpid]; exact h.pids.ascending
  · rw [hpid]; exact h.pids.free_pid
  · rw [hsem]; exact h.asl
  · rw [Nucleus.waits, hsem]; exact h.place q
  · rw [hprio]
    exact h.prio pr q (by cases pr <;> exact hq)
  · have hqc : q ≠ c := by rintro rfl; exact hc hq
    have hqp : q ≠ p := by rintro rfl; exact hp hq
    rw [insertChild_parent, insertChild_children, if_neg hqp, if_neg hqc]
    exact h.free_leaf q hq

end PandosPlus
