import PandosPlus.Phase2.Steps

/-!
# The invariant of the nucleus

`Sound` adds to `Core` what the semaphores of the nucleus need: the word of the clock
is zero, and a process blocked within the array of device semaphores is blocked on one
of its elements.  Between steps (`Inv`) the current process is the only one in no list,
apart from those that were to be made ready but carried the reserved pid: those are
lost, and the invariant keeps count of them.

Every way a step can end preserves it.
-/

namespace PandosPlus

variable {n : Nat} (cfg : Config n)

/-- The addresses of the semaphores of the nucleus. -/
def IsNucleusSem (k : Word) : Prop := k = cfg.semaphore_it ∨ ∃ i, k = cfg.devSem i

/-- The invariant inside the kernel, while it holds some PCBs. -/
structure Sound (held : List (Fin n)) (s : Nucleus n) : Prop where
  core : Core s held
  clock : s.mem cfg.semaphore_it = 0
  key : ∀ p k, s.semAdd p = some k → Owned cfg k → IsNucleusSem cfg k

/-- The PCBs carry the reserved pid. -/
def Reserved (l : List (Fin n)) (s : Nucleus n) : Prop := ∀ p ∈ l, s.pid p = FREE_PCB_PID

/-- The invariant between steps. -/
def Inv (s : Nucleus n) : Prop :=
  ∃ lost, Reserved lost s ∧ Sound cfg (s.curr_process.toList ++ lost) s

variable {cfg} {s t u : Nucleus n} {held lost : List (Fin n)} {c p q : Fin n} {k : Word} {e : Exit}

variable (cfg) in
theorem devSem_toNat (i : Fin TOTAL_IO_DEVICES) :
    (cfg.devSem i).toNat = cfg.semaphore_devices.toNat + 4 * i := by
  have hend := cfg.devices_end
  have hi := i.isLt
  unfold Config.devSem
  simp only [TOTAL_IO_DEVICES] at hi hend
  rw [BitVec.toNat_add, BitVec.toNat_ofNat]
  omega

theorem devSem_ne_it (i : Fin TOTAL_IO_DEVICES) : cfg.devSem i ≠ cfg.semaphore_it := by
  have hout := cfg.it_notMem
  have hend := cfg.devices_end
  have hi := i.isLt
  have hsem := devSem_toNat cfg i
  simp only [TOTAL_IO_DEVICES] at hi hend
  bv_omega

theorem devSem_injective : Function.Injective cfg.devSem := by
  intro i j h
  have hi := devSem_toNat cfg i
  rw [h, devSem_toNat cfg] at hi
  exact Fin.ext (by omega)

theorem owned_devSem (i : Fin TOTAL_IO_DEVICES) : Owned cfg (cfg.devSem i) := by
  have hfirst := devSem_toNat cfg 0
  have hlast := devSem_toNat cfg (Fin.last (TOTAL_IO_DEVICES - 1))
  have hi := devSem_toNat cfg i
  have hlt := i.isLt
  rw [show ((0 : Fin TOTAL_IO_DEVICES) : Nat) = 0 from rfl] at hfirst
  rw [show ((Fin.last (TOTAL_IO_DEVICES - 1) : Fin TOTAL_IO_DEVICES) : Nat) = 47 from rfl] at hlast
  simp only [TOTAL_IO_DEVICES] at hlt
  exact .inr ⟨by bv_omega, by bv_omega⟩

theorem not_owned_bus {a : Word} (ha : IsBusAddr a) : ¬ Owned cfg a := by
  have hit := cfg.it_ram
  have hram := cfg.devices_ram
  have hfirst := devSem_toNat cfg 0
  rw [show ((0 : Fin TOTAL_IO_DEVICES) : Nat) = 0 from rfl] at hfirst
  obtain ⟨_, hlt⟩ := ha
  rintro (rfl | ⟨hle, _⟩) <;> bv_omega

theorem isSoftBlocked_iff (p : Fin n) (s : Nucleus n) :
    isSoftBlocked cfg p s = true ↔ ∃ k, s.semAdd p = some k ∧ Owned cfg k := by
  unfold isSoftBlocked Nucleus.semAdd Owned
  cases (s.pcbFree_table p).p_semAdd <;> simp

namespace Sound

theorem perm {held' : List (Fin n)} (h : Sound cfg held s) (hp : held.Perm held') :
    Sound cfg held' s := { h with core := h.core.perm hp }

theorem quiet (h : Sound cfg held s) (hq : Quiet s t)
    (hmem : t.mem cfg.semaphore_it = s.mem cfg.semaphore_it) : Sound cfg held t where
  core := h.core.quiet hq
  clock := hmem.trans h.clock
  key := by rw [hq.semAdd]; exact h.key

theorem store (h : Sound cfg held s) {a v : Word} (ha : a = cfg.semaphore_it → v = 0) :
    Sound cfg held (s.store a v) where
  core := h.core.quiet (.store s a v)
  clock := by
    by_cases e : cfg.semaphore_it = a
    · rw [e, Nucleus.store_same]
      exact ha e.symm
    · rw [Nucleus.store_ne _ _ e]
      exact h.clock
  key := h.key

theorem block (h : Sound cfg (p :: held) s) (hk : Owned cfg k → IsNucleusSem cfg k) :
    Sound cfg held (s.block k p) where
  core := h.core.block k
  clock := h.clock
  key q k' hq hown := by
    rw [Nucleus.block_semAdd] at hq
    by_cases e : q = p
    · simp only [if_pos e] at hq
      cases hq
      exact hk hown
    · simp only [if_neg e] at hq
      exact h.key q k' hq hown

theorem unblock (h : Sound cfg held s) (hk : s.semAdd p = some k) :
    Sound cfg (p :: held) (s.unblock k p) where
  core := h.core.unblock hk
  clock := h.clock
  key q k' hq hown := by
    rw [Nucleus.unblock_semAdd] at hq
    by_cases e : q = p
    · simp only [if_pos e] at hq
      cases hq
    · simp only [if_neg e] at hq
      exact h.key q k' hq hown

theorem wake (h : Sound cfg (p :: held) s) : Sound cfg (s.dropped p ++ held) (s.wake p) where
  core := h.core.wake
  clock := by rw [Nucleus.wake_mem]; exact h.clock
  key := by rw [Nucleus.wake_semAdd]; exact h.key

theorem makeReady (h : Sound cfg (p :: held) s) : Sound cfg held (s.makeReady p) where
  core := h.core.makeReady
  clock := by rw [Nucleus.makeReady_mem]; exact h.clock
  key := by rw [Nucleus.makeReady_semAdd]; exact h.key

theorem killed {K : List (Fin n)} (h : Sound cfg held s) (hkill : Killed cfg p K s t)
    (hp : p ∉ s.pcbFree_h) : Sound cfg (held.filter (· ∉ K)) t where
  core := h.core.killed hkill hp
  clock := by
    rw [show t.mem = s.mem from congrArg (·.1.2.2.2.2.1) hkill.torn.kept]
    exact h.clock
  key q k hq hown := by
    rw [hkill.torn.semAdd] at hq
    split at hq
    · cases hq
    · exact h.key q k hq hown

end Sound

/-! ## The scheduler -/

/-- Once the kernel holds no process that could run, the scheduler restores the
invariant. -/
theorem Scheduled.inv (h : Sound cfg lost s) (hlost : Reserved lost s) (he : e ≠ .halt)
    (hs : Scheduled cfg s e t) : Inv cfg t := by
  cases hs with
  | halt => exact absurd rfl he
  | wait => exact ⟨lost, hlost, h.quiet ⟨fun _ ↦ rfl, rfl⟩ rfl⟩
  | deadlock => exact ⟨lost, hlost, h.quiet ⟨fun _ ↦ rfl, rfl⟩ rfl⟩
  | dispatch p prio rest hcount hnext hqueue =>
      have hpick : Sound cfg (p :: lost) (s.pick p prio rest) := by
        refine ⟨h.core.pick hqueue, ?_, ?_⟩
        · change (s.setReadyQueue rest prio).mem _ = 0
          rw [Nucleus.setReadyQueue_mem]
          exact h.clock
        · intro q k hq hown
          refine h.key q k ?_ hown
          change ((s.setReadyQueue rest prio).pcbFree_table q).p_semAdd = some k at hq
          rwa [Nucleus.setReadyQueue_table] at hq
      have hquiet := Quiet.load cfg p (s.pick p prio rest)
      have hcurr : ((s.pick p prio rest).load cfg p).curr_process = some p := by
        unfold Nucleus.load
        split <;> rfl
      have hmem : ((s.pick p prio rest).load cfg p).mem = (s.pick p prio rest).mem := by
        unfold Nucleus.load
        split <;> rfl
      refine ⟨lost, fun q hq ↦ ?_, ?_⟩
      · rw [hquiet.pid]
        have := hlost q hq
        change ((s.setReadyQueue rest prio).pcbFree_table q).p_pid = _
        rwa [Nucleus.setReadyQueue_table]
      · rw [hcurr]
        exact hpick.quiet hquiet (by rw [hmem])

/-! ## The system calls -/

theorem Reserved.quiet (h : Reserved lost s) (hpid : t.pid = s.pid) : Reserved lost t :=
  fun q hq ↦ (congrFun hpid q).trans (h q hq)

/-- What `setProcessReady` drops carries the reserved pid. -/
theorem Reserved.dropped (h : Reserved lost s) : Reserved (s.dropped p ++ lost) s := by
  intro q hq
  rcases List.mem_append.mp hq with hq | hq
  · unfold Nucleus.dropped at hq
    split at hq
    · rename_i hp
      rwa [List.mem_singleton.mp hq]
    · cases hq
  · exact h q hq

theorem Finished.inv {live : Prop} (h : Sound cfg held s) (hlost : Reserved lost s) (he : e ≠ .halt)
    (hlive : live → held.Perm (s.curr_process.toList ++ lost))
    (hdead : ¬ live → Reserved held s) (hs : Finished cfg s live e t) : Inv cfg t := by
  cases hs with
  | resume hl => exact ⟨lost, hlost, h.perm (hlive hl)⟩
  | schedule hl hnext => exact hnext.inv h (hdead hl) he

theorem SemCall.inv {full : Word} (h : Sound cfg (c :: lost) s) (hlost : Reserved lost s)
    (hc : s.curr_process = some c) (hclock : k = cfg.semaphore_it → full = 0)
    (hk : Owned cfg k → IsNucleusSem cfg k) (he : e ≠ .halt) (hs : SemCall cfg full k c s e t) :
    Inv cfg t := by
  cases hs with
  | block hfull hnext =>
      have hquiet := (Quiet.saveState c s.prev (s.block k c)).trans (Quiet.charge cfg c _)
      refine hnext.inv ((h.block hk).quiet hquiet rfl) (hlost.quiet ?_) he
      rw [hquiet.pid]
      exact (s.block_links k c).1
  | release p rest hfull hqueue =>
      have hp : s.semAdd p = some k :=
        h.core.asl.mem_queue.mp (by rw [hqueue]; exact List.mem_cons_self)
      have hpid : (s.unblock k p).pid = s.pid := (s.unblock_links k p).1
      refine ⟨(s.unblock k p).dropped p ++ lost, ?_, ?_⟩
      · exact (hlost.quiet hpid).dropped.quiet (Nucleus.wake_pid p _)
      · have hcurr : (s.unblock k p).curr_process = some c := hc
        rw [Nucleus.wake_curr, hcurr]
        exact (h.unblock hp).wake.perm List.perm_middle
  | write hfull hqueue =>
      refine ⟨lost, hlost, ?_⟩
      rw [show (s.store k full).curr_process = some c from hc]
      exact h.store hclock

theorem PassedUp.inv {i : Fin 2} (h : Sound cfg (c :: lost) s) (hlost : Reserved lost s)
    (hc : s.curr_process = some c) (he : e ≠ .halt) (hs : PassedUp cfg i c s e t) : Inv cfg t := by
  cases hs with
  | up a ha =>
      refine ⟨lost, hlost, ?_⟩
      rw [show (s.savedUp a i).curr_process = some c from hc]
      exact h.quiet ⟨fun _ ↦ rfl, rfl⟩ rfl
  | die K u ha hkill hnext =>
      have hfree := (h.core.of_held List.mem_cons_self).1
      refine hnext.inv (h.killed hkill hfree) (fun q hq ↦ ?_) he
      obtain ⟨hq, hK⟩ := mem_filter_notMem.mp hq
      rw [hkill.torn.pid, if_neg hK]
      rcases List.mem_cons.mp hq with rfl | hq
      · exact absurd (hkill.subtree.root q (List.mem_singleton_self q)) hK
      · exact hlost q hq

section Created

variable {rest : List (Fin n)} {statep : Word}

/-- CREATEPROCESS leaves blocked processes alone. -/
theorem created_semAdd (h : Core s held) (hf : s.pcbFree_h = p :: rest) :
    (s.created cfg c p rest statep).semAdd = s.semAdd := by
  have hp : p ∈ s.pcbFree_h := by rw [hf]; exact List.mem_cons_self
  refine (insertChild_links _ c p).2.2.trans ?_
  rw [Nucleus.makeReady_semAdd, (fillPcb_links _ _ _ _ _).1, (h.enroll_links hp rest).1]

theorem created_pid (hq : q ≠ p) : (s.created cfg c p rest statep).pid q = s.pid q := by
  refine (congrFun (insertChild_links _ c p).1 q).trans ?_
  rw [Nucleus.makeReady_pid, (fillPcb_links _ _ _ _ _).2.2.2, Nucleus.pid, Nucleus.enroll_table,
    if_neg hq]
  rfl

theorem created_core (h : Core s (c :: held)) (hf : s.pcbFree_h = p :: rest) :
    Core (s.created cfg c p rest statep) (c :: held) := by
  have hp : p ∈ s.pcbFree_h := by rw [hf]; exact List.mem_cons_self
  have hfill := (h.enroll cfg.maxproc_lt hf).fill (cfg.readState s.mem statep)
    (if s.prev.reg_a2 = 0 then .low else .high) (cfg.ptr s.prev.reg_a3)
  have hready := hfill.makeReady
  refine (hready.insertChild (c := c) (p := p) ?_ ?_ ?_).quiet ⟨fun _ ↦ rfl, rfl⟩
  · exact (hready.of_held List.mem_cons_self).1
  · rw [Nucleus.makeReady_free]
    exact (hfill.of_held List.mem_cons_self).1
  · rw [Nucleus.parent, Nucleus.makeReady_table]
    refine (congrFun (fillPcb_links _ _ _ _ _).2.1 p).trans ?_
    rw [(h.enroll_links hp rest).2.1]
    exact (h.free_leaf p hp).1

theorem created_inv (h : Sound cfg (c :: lost) s) (hlost : Reserved lost s)
    (hc : s.curr_process = some c) (hf : s.pcbFree_h = p :: rest) :
    Inv cfg (s.created cfg c p rest statep) := by
  have hp : p ∈ s.pcbFree_h := by rw [hf]; exact List.mem_cons_self
  have hcurr : (s.created cfg c p rest statep).curr_process = some c :=
    (Nucleus.makeReady_curr p _).trans hc
  have hmem : (s.created cfg c p rest statep).mem = s.mem := Nucleus.makeReady_mem p _
  refine ⟨lost, fun q hq ↦ ?_, ?_⟩
  · have hne : q ≠ p := by
      rintro rfl
      exact (h.core.of_held (List.mem_cons_of_mem _ hq)).1 hp
    rw [created_pid hne]
    exact hlost q hq
  · rw [hcurr]
    refine ⟨created_core h.core hf, ?_, ?_⟩
    · rw [hmem]
      exact h.clock
    · rw [created_semAdd h.core hf]
      exact h.key

end Created

/-- TERMPROCESS kills a process that is there. -/
theorem target_alive (h : Core s (c :: held)) (ht : s.target c = some p) : p ∉ s.pcbFree_h := by
  unfold Nucleus.target at ht
  split at ht
  · cases ht
    exact (h.of_held List.mem_cons_self).1
  · exact (h.pids.getProcessByPid_eq_some.mp ht).1

theorem Killed.reserved {K : List (Fin n)} (hkill : Killed cfg p K s t) (hlost : Reserved lost s) :
    Reserved (lost.filter (· ∉ K)) t := by
  intro q hq
  obtain ⟨hq, hK⟩ := mem_filter_notMem.mp hq
  rw [hkill.torn.pid, if_neg hK]
  exact hlost q hq

/-- TERMPROCESS: a caller that is resumed has not been killed. -/
theorem kill_inv {K : List (Fin n)} (h : Sound cfg (c :: lost) s) (hlost : Reserved lost s)
    (hc : s.curr_process = some c) (he : e ≠ .halt) (ht : s.target c = some p)
    (hkill : Killed cfg p K s t)
    (hend : Finished cfg t (s.prev.reg_a1 ≠ 0 ∧ t.pid c ≠ FREE_PCB_PID) e u) : Inv cfg u := by
  have hsound := h.killed hkill (target_alive h.core ht)
  have hpid : ∀ q ∈ K, t.pid q = FREE_PCB_PID := fun q hq ↦ by rw [hkill.torn.pid, if_pos hq]
  refine hend.inv hsound (hkill.reserved hlost) he (fun hlive ↦ ?_) (fun hdead q hq ↦ ?_)
  · have hK : c ∉ K := fun hK ↦ hlive.2 (hpid c hK)
    have hcurr : t.curr_process = some c := (congrArg (·.1.2.1) hkill.torn.kept).trans hc
    rw [hcurr, List.filter_cons_of_pos (by simpa using hK)]
    rfl
  · obtain ⟨hq', hK⟩ := mem_filter_notMem.mp hq
    rcases List.mem_cons.mp hq' with rfl | hq'
    · by_cases ha : s.prev.reg_a1 = 0
      · -- the caller has killed itself
        have hp : q = p := Option.some.inj ((if_pos ha).symm.trans ht)
        exact absurd (hp ▸ hkill.subtree.root p (List.mem_singleton_self p)) hK
      · by_contra hne
        exact hdead ⟨ha, hne⟩
    · exact hkill.reserved hlost q (mem_filter_notMem.mpr ⟨hq', hK⟩)

/-- The system calls made by the current process `c`. -/
theorem Called.inv {code : Int} (h : Sound cfg (c :: lost) s) (hlost : Reserved lost s)
    (hc : s.curr_process = some c)
    (hlaw : code = PASSEREN ∨ code = VERHOGEN → ¬ Owned cfg s.prev.reg_a1) (he : e ≠ .halt)
    (hs : Called cfg c s code e t) : Inv cfg t := by
  have hresume : ∀ {u : Nucleus n}, Quiet s u → u.curr_process = s.curr_process →
      u.mem = s.mem → Inv cfg u := by
    intro u hq hcurr hmem
    refine ⟨lost, hlost.quiet hq.pid, ?_⟩
    rw [hcurr, hc]
    exact h.quiet hq (by rw [hmem])
  have hptr : ∀ {k}, cfg.ptr s.prev.reg_a1 = some k → s.prev.reg_a1 = k := by
    intro k hk
    unfold Config.ptr at hk
    split at hk
    · cases hk
    · exact Option.some.inj hk
  cases hs with
  | createFails hfree => exact hresume ⟨fun _ ↦ rfl, rfl⟩ rfl rfl
  | create p rest statep hfree hstate => exact created_inv h hlost hc hfree
  | kill p K u htarget hkill hend => exact kill_inv h hlost hc he htarget hkill hend
  | killNone htarget hend =>
      refine hend.inv h hlost he (fun _ ↦ by rw [hc]; rfl) (fun hdead q hq ↦ ?_)
      rcases List.mem_cons.mp hq with rfl | hq
      · exact not_not.mp hdead
      · exact hlost q hq
  | passeren k hk hsem =>
      have hown := hlaw (.inl rfl)
      rw [hptr hk] at hown
      exact hsem.inv h hlost hc (fun _ ↦ rfl) (fun h ↦ absurd h hown) he
  | verhogen k hk hsem =>
      have hown := hlaw (.inr rfl)
      rw [hptr hk] at hown
      exact hsem.inv h hlost hc (fun e ↦ absurd (.inl e) hown) (fun h ↦ absurd h hown) he
  | doIo i hi hsem =>
      have hissue : Sound cfg (c :: lost) (s.issue i) := by
        refine h.quiet ⟨fun _ ↦ rfl, rfl⟩ ?_
        exact Nucleus.store_ne _ _ (semaphore_it_ne_bus (commandAddr_bus i))
      exact hsem.inv hissue hlost hc (fun e ↦ absurd e (devSem_ne_it i)) (fun _ ↦ .inr ⟨i, rfl⟩) he
  | getTime =>
      have hq : Quiet s (s.timed cfg c) := (Quiet.charge cfg c s).trans ⟨fun _ ↦ rfl, rfl⟩
      exact hresume hq rfl rfl
  | clockWait hsem =>
      have hcount : Sound cfg (c :: lost)
          { s with softblocked_count := s.softblocked_count + 1 } := h.quiet ⟨fun _ ↦ rfl, rfl⟩ rfl
      exact hsem.inv hcount hlost hc (fun _ ↦ rfl) (fun _ ↦ .inl rfl) he
  | getSupportPtr => exact hresume ⟨fun _ ↦ rfl, rfl⟩ rfl rfl
  | getProcessId => exact hresume ⟨fun _ ↦ rfl, rfl⟩ rfl rfl
  | yield hnext =>
      have hsave : Sound cfg (c :: lost) { s.saveState c s.prev with process_to_skip := some c } :=
        h.quiet ((Quiet.saveState c s.prev s).trans ⟨fun _ ↦ rfl, rfl⟩) rfl
      have hquiet : Quiet _ (s.yielded cfg c) := (Quiet.charge cfg c _).trans ⟨fun _ ↦ rfl, rfl⟩
      refine hnext.inv (hsave.wake.quiet hquiet rfl) ?_ he
      refine Reserved.quiet (Reserved.dropped (hlost.quiet ?_)) ?_
      · exact (Quiet.saveState c s.prev s).pid
      · rw [hquiet.pid, Nucleus.wake_pid]
  | invalid hcode hend =>
      exact hend.inv (h.quiet (t := s.invalidated) ⟨fun _ ↦ rfl, rfl⟩ rfl) hlost hc he

/-! ## The interrupts -/

theorem wakeClock_sound (h : Sound cfg held s) (hp : s.semAdd p = some k) :
    Sound cfg (s.dropped p ++ held) (s.wakeClock k p) ∧ (s.wakeClock k p).pid = s.pid := by
  have hpid : (s.unblock k p).pid = s.pid := (s.unblock_links k p).1
  have hdropped : (s.unblock k p).dropped p = s.dropped p := by
    unfold Nucleus.dropped
    rw [hpid]
  refine ⟨?_, ?_⟩
  · rw [← hdropped]
    exact (h.unblock hp).wake.quiet ⟨fun _ ↦ rfl, rfl⟩ rfl
  · exact (Nucleus.wake_pid p (s.unblock k p)).trans hpid

/-- The loop over the waiters of the clock. -/
theorem wakeClocks_sound {l : List (Fin n)} (h : Sound cfg (held ++ lost) s)
    (hlost : Reserved lost s) (hl : s.asl.queue k = l) :
    let t := l.foldl (fun s p ↦ s.wakeClock k p) s
    t.pid = s.pid ∧ t.curr_process = s.curr_process ∧
      ∃ lost', Reserved lost' t ∧ Sound cfg (held ++ lost') t := by
  induction l generalizing s lost with
  | nil => exact ⟨rfl, rfl, lost, hlost, h⟩
  | cons p l ih =>
      have hp : s.semAdd p = some k :=
        h.core.asl.mem_queue.mp (by rw [hl]; exact List.mem_cons_self)
      obtain ⟨hsound, hpid⟩ := wakeClock_sound h hp
      have hqueue : (s.wakeClock k p).asl.queue k = l := by
        rw [Nucleus.wakeClock_asl, Nucleus.unblock_queue h.core.asl hp, if_pos rfl, hl,
          List.erase_cons_head]
      have hcurr : (s.wakeClock k p).curr_process = s.curr_process := Nucleus.wake_curr p _
      have hperm : (s.dropped p ++ (held ++ lost)).Perm (held ++ (s.dropped p ++ lost)) := by
        rw [← List.append_assoc, ← List.append_assoc]
        exact List.perm_append_comm.append_right lost
      obtain ⟨hpid', hcurr', lost', hlost', hsound'⟩ :=
        ih (hsound.perm hperm) (hlost.dropped.quiet hpid) hqueue
      exact ⟨hpid'.trans hpid, hcurr'.trans hcurr, lost', hlost', hsound'⟩

/-- The process a completion wakes. -/
theorem deviceReturn_sound {i : Fin TOTAL_IO_DEVICES} (h : Sound cfg (held ++ lost) s)
    (hlost : Reserved lost s) (hs : DeviceReturn cfg i s u) :
    u.curr_process = s.curr_process ∧ ∃ lost', Reserved lost' u ∧ Sound cfg (held ++ lost') u := by
  have hack : Sound cfg (held ++ lost) (s.store (commandAddr i) ACK) :=
    h.store fun e ↦ absurd e.symm (semaphore_it_ne_bus (commandAddr_bus i))
  cases hs with
  | wake p rest hv hqueue hp =>
      have hsem : s.semAdd p = some (cfg.devSem i) :=
        h.core.asl.mem_queue.mp (by rw [hqueue]; exact List.mem_cons_self)
      have hready := (hack.unblock hsem).makeReady
      have hquiet : Quiet (((s.store (commandAddr i) ACK).unblock (cfg.devSem i) p).makeReady p)
          (s.answered cfg i p) := by
        refine ⟨fun q ↦ ?_, rfl⟩
        exact Nucleus.modifyPcb_field Pcb.links
          (f := fun x ↦ { x with p_s := { x.p_s with reg_v0 := s.mem (statusAddr i) } })
          (by intro; rfl) _ p q
      have hpid : (s.answered cfg i p).pid = s.pid := by
        rw [hquiet.pid, Nucleus.makeReady_pid]
        exact ((s.store (commandAddr i) ACK).unblock_links (cfg.devSem i) p).1
      exact ⟨Nucleus.makeReady_curr p _, lost, hlost.quiet hpid, hready.quiet hquiet rfl⟩
  | drop p rest hv hqueue hp =>
      have hsem : s.semAdd p = some (cfg.devSem i) :=
        h.core.asl.mem_queue.mp (by rw [hqueue]; exact List.mem_cons_self)
      refine ⟨rfl, p :: lost, ?_, ?_⟩
      · have hpid := ((s.store (commandAddr i) ACK).unblock_links (cfg.devSem i) p).1
        intro q hq
        rw [hpid]
        rcases List.mem_cons.mp hq with rfl | hq
        · exact hp
        · exact hlost q hq
      · exact (hack.unblock hsem).perm List.perm_middle.symm
  | late hv hqueue hnull =>
      exact ⟨rfl, lost, hlost, hack.store fun e ↦ absurd e (devSem_ne_it i)⟩

/-- `_interruptHandlerExit`, with the current process still there or not. -/
theorem Finished.inv_leaving (h : Sound cfg (u.curr_process.toList ++ lost) u)
    (hlost : Reserved lost u) (he : e ≠ .halt)
    (hend : Finished cfg (u.leaving cfg) (u.curr_process ≠ none) e t) : Inv cfg t := by
  have hquiet : Quiet u (u.leaving cfg) := ⟨fun _ ↦ rfl, rfl⟩
  refine hend.inv (h.quiet hquiet rfl) (hlost.quiet hquiet.pid) he (fun _ ↦ .refl _)
    fun hdead ↦ ?_
  rw [not_not.mp hdead]
  exact hlost.quiet hquiet.pid

theorem Interrupted.inv (h : Sound cfg (s.curr_process.toList ++ lost) s) (hlost : Reserved lost s)
    (he : e ≠ .halt) (hs : Interrupted cfg s e t) : Inv cfg t := by
  cases hs with
  | plt c hc hip hnext =>
      rw [hc] at h
      have hstart : Quiet s (startPLT s) := ⟨fun _ ↦ rfl, rfl⟩
      have hquiet := (hstart.trans (.saveState c s.prev _)).trans (.charge cfg c _)
      have hwake := (h.quiet hquiet rfl).wake
      refine hnext.inv (hwake.quiet (t := s.preempted cfg c) ⟨fun _ ↦ rfl, rfl⟩ rfl) ?_ he
      refine Reserved.quiet (hlost.quiet hquiet.pid).dropped ?_
      exact Nucleus.wake_pid c _
  | clock l hl hip hend =>
      obtain ⟨-, -, lost', hlost', hsound⟩ := wakeClocks_sound h hlost hl
      have hcurr : (s.ticked cfg l).curr_process = s.curr_process :=
        (wakeClocks_sound h hlost hl).2.1
      have hstore := hsound.store (a := cfg.semaphore_it) (v := 0) fun _ ↦ rfl
      have htick : Sound cfg (s.curr_process.toList ++ lost') (s.ticked cfg l) :=
        hstore.quiet ⟨fun _ ↦ rfl, rfl⟩ rfl
      rw [← hcurr] at htick
      exact hend.inv_leaving htick (hlost'.quiet rfl) he
  | device i u hi hret hend =>
      obtain ⟨hcurr, lost', hlost', hsound⟩ := deviceReturn_sound h hlost hret
      rw [← hcurr] at hsound
      exact hend.inv_leaving hsound hlost' he
  | none hi hend => exact hend.inv_leaving h hlost he

/-! ## The steps -/

theorem Handled.inv (h : Sound cfg (s.curr_process.toList ++ lost) s) (hlost : Reserved lost s)
    (hlaw : (Action.exception s.prev).Lawful cfg) (he : e ≠ .halt) (hs : Handled cfg s e t) :
    Inv cfg t := by
  cases hs with
  | interrupt hcode hend =>
      have hquiet := Quiet.interrupted cfg s
      refine hend.inv ?_ (hlost.quiet hquiet.pid) he
      rw [interrupted_curr]
      exact h.quiet hquiet (by rw [interrupted_mem])
  | call c code hc hcall hend =>
      rw [hc] at h
      have hquiet : Quiet s s.advanced := ⟨fun _ ↦ rfl, rfl⟩
      refine hend.inv (h.quiet hquiet rfl) (hlost.quiet rfl) hc (fun hcode ↦ ?_) he
      rcases hcode with rfl | rfl
      · exact hlaw (.inl hcall)
      · exact hlaw (.inr hcall)
  | passUp c i hc hcall hcode hend =>
      rw [hc] at h
      exact hend.inv h hlost hc he
  | trap c hc hcall hcode hend =>
      rw [hc] at h
      exact hend.inv (h.quiet (t := s.invalidated) ⟨fun _ ↦ rfl, rfl⟩ rfl) (hlost.quiet rfl) hc he

end PandosPlus
