import PandosPlus.Phase2.Completions
import PandosPlus.Phase2.Family

/-!
# How the kernel comes to its end

From a reachable state every run of `exceptionHandler` is over after finitely many turns of its
loops.  It hands over the processor or waits, it halts with no process alive, or it reports a
deadlock of all processes, except for a few exceptions that are named here (`Fatal`) and that it
does not survive: a null pointer is followed, a device is not there, or it returns to no one.
-/

namespace PandosPlus

open Flow Lts

variable {n : Nat} (cfg : Config n)

/-- The exceptions the kernel does not survive. -/
inductive Fatal (s : Nucleus n) : Prop
  /-- `exceptionHandler` has no case for the code. -/
  | unknown (hcode : 12 < excCode s.prev.cause) : Fatal s
  /-- CREATEPROCESS is given no state. -/
  | noState (hcall : IsCall s.prev CREATEPROCESS) (hfree : s.pcbFree_h ≠ [])
      (hnull : cfg.ptr s.prev.reg_a1 = none) : Fatal s
  /-- PASSEREN or VERHOGEN is given no semaphore. -/
  | noSemaphore (hcall : IsCall s.prev PASSEREN ∨ IsCall s.prev VERHOGEN)
      (hnull : cfg.ptr s.prev.reg_a1 = none) : Fatal s
  /-- DOIO is given the address of no command field. -/
  | noCommand (hcall : IsCall s.prev DOIO) (hi : ∀ i, s.prev.reg_a1 ≠ commandAddr i) : Fatal s
  /-- The local timer runs out while no process runs. -/
  | noProcess (hcode : excCode s.prev.cause = 0) (hplt : s.pending &&& LOCALTIMERINT ≠ 0)
      (hc : s.curr_process = none) : Fatal s
  /-- A line is pending, and none of its devices is. -/
  | noDevice (hcode : excCode s.prev.cause = 0) (hplt : s.pending &&& LOCALTIMERINT = 0)
      (hit : s.pending &&& TIMERINTERRUPT = 0) (line : Nat)
      (hline : deviceLine s.pending = some line)
      (hdev : lowestDevice (getDeviceBitmap line s) = none) : Fatal s
  /-- A terminal has neither received nor transmitted. -/
  | noStatus (hcode : excCode s.prev.cause = 0) (hdev : s.DevicePending)
      (hserved : s.served = none) : Fatal s
  /-- No process waits for the device. -/
  | noWaiter (hcode : excCode s.prev.cause = 0) (i : Fin TOTAL_IO_DEVICES)
      (hi : s.served = some i) (hqueue : s.asl.queue (cfg.devSem i) = []) : Fatal s

/-- The processor is handed over or waits, or there is nothing left to do. -/
inductive Orderly : Exit → Nucleus n → Prop
  | done {e : Exit} {t : Nucleus n} (hdone : e.Completed) : Orderly e t
  /-- No process is alive. -/
  | halt {t : Nucleus n} (hfree : ∀ p, p ∈ t.pcbFree_h) : Orderly .halt t
  /-- Processes are alive, and all of them wait, none for a device or the clock; or the kernel
  has lost them because they carry the reserved pid. -/
  | deadlock {t : Nucleus n} (halive : ∃ p, p ∉ t.pcbFree_h) (hcurr : t.curr_process = none)
      (hsoft : t.softblocked_count = 0)
      (hwaits : ∀ p, p ∉ t.pcbFree_h → (∃ k, t.semAdd p = some k) ∨ t.pid p = FREE_PCB_PID) :
      Orderly (.panic .deadlock) t

/-- The scheduler has no process to dispatch, and does not wait for one. -/
structure Deadlocked (e : Exit) (t : Nucleus n) : Prop where
  exit : e = .panic .deadlock
  count : t.process_count ≠ 0
  curr : t.curr_process = none
  ready : ∀ prio, t.readyQueue prio = []
  soft : t.softblocked_count = 0

variable {cfg} {s t u : Nucleus n} {e : Exit} {c p : Fin n} {k : Word} {held lost : List (Fin n)}

/-! ## The ends a handler has -/

theorem Core.count_ne_zero (h : Core s held) (hp : p ∉ s.pcbFree_h) : s.process_count ≠ 0 := by
  intro hcount
  have hzero : s.process_count.toNat = 0 := by
    rw [hcount]
    rfl
  have hlen := (List.nodup_cons.mpr ⟨hp, h.pids.free_nodup⟩).length_le_card
  rw [List.length_cons, Fintype.card_fin] at hlen
  have hall := h.count
  omega

theorem Core.all_free (h : Core s held) (hcount : s.process_count = 0) : ∀ p, p ∈ s.pcbFree_h := by
  intro q
  by_contra hq
  exact h.count_ne_zero hq hcount

theorem Scheduled.outcome (h : Scheduled cfg s e t) :
    e.Completed ∨ e = .halt ∧ t = s ∧ s.process_count = 0 ∨ Deadlocked e t := by
  cases h with
  | halt hcount => exact .inr (.inl ⟨rfl, rfl, hcount⟩)
  | wait => exact .inl trivial
  | deadlock hcount hhigh hlow hsoft =>
      refine .inr (.inr ⟨rfl, hcount, rfl, ?_, ?_⟩)
      · rintro (_ | _)
        · exact hlow
        · exact hhigh
      · exact BitVec.le_zero_iff.mp (BitVec.not_lt.mp hsoft)
  | dispatch => exact .inl trivial

/-- A routine that kills no one leads to a halt only if no one was alive. -/
theorem Scheduled.outcome_of (h : Scheduled cfg u e t) (hcount : u.process_count = s.process_count)
    (hs : s.process_count ≠ 0) : e.Completed ∨ Deadlocked e t := by
  rcases h.outcome with hdone | ⟨-, -, hzero⟩ | hdead
  · exact .inl hdone
  · exact absurd (hcount.symm.trans hzero) hs
  · exact .inr hdead

theorem Finished.outcome {live : Prop} (h : Finished cfg u live e t)
    (hcount : u.process_count = s.process_count) (hs : s.process_count ≠ 0) :
    e.Completed ∨ Deadlocked e t := by
  cases h with
  | resume => exact .inl trivial
  | schedule hdead hnext => exact hnext.outcome_of hcount hs

theorem SemCall.outcome {full : Word} (h : SemCall cfg full k c u e t)
    (hcount : u.process_count = s.process_count) (hs : s.process_count ≠ 0) :
    e.Completed ∨ Deadlocked e t := by
  cases h with
  | block hfull hnext => exact hnext.outcome_of hcount hs
  | release => exact .inl trivial
  | write => exact .inl trivial

theorem wake_count (q : Fin n) (s : Nucleus n) : (s.wake q).process_count = s.process_count := by
  unfold Nucleus.wake
  split
  · rfl
  · exact Nucleus.setReadyQueue_count _ _ _

theorem ticked_count (l : List (Fin n)) (s : Nucleus n) :
    (s.ticked cfg l).process_count = s.process_count := by
  change (l.foldl (fun s p ↦ s.wakeClock cfg.semaphore_it p) s).process_count = s.process_count
  induction l generalizing s with
  | nil => rfl
  | cons _ l ih =>
      rw [List.foldl_cons, ih]
      exact wake_count _ _

theorem DeviceReturn.count {i : Fin TOTAL_IO_DEVICES} (h : DeviceReturn cfg i s u) :
    u.process_count = s.process_count := by
  cases h with
  | wake p rest hv hqueue hp => exact Nucleus.setReadyQueue_count _ _ _
  | drop p rest hv hqueue hp => rfl
  | late hv hqueue hnull => rfl

theorem interrupted_count (s : Nucleus n) :
    (s.interrupted cfg).process_count = s.process_count := (Quiet.interrupted cfg s).count

theorem Interrupted.outcome (h : Interrupted cfg s e t) (hs : s.process_count ≠ 0) :
    e.Completed ∨ Deadlocked e t := by
  cases h with
  | plt c hc hip hnext => exact hnext.outcome_of (wake_count c _) hs
  | clock l hl hip hend => exact hend.outcome (ticked_count l s) hs
  | device i u hi hret hend => exact hend.outcome hret.count hs
  | none hi hend => exact hend.outcome rfl hs

/-- The kernel halts where a kill has left no one alive. -/
theorem PassedUp.outcome {i : Fin 2} (hs : Core s (c :: held)) (h : PassedUp cfg i c s e t) :
    e.Completed ∨ e = .halt ∧ (∀ p, p ∈ t.pcbFree_h) ∨ Deadlocked e t := by
  cases h with
  | up => exact .inl trivial
  | die K u ha hkill hnext =>
      refine hnext.outcome.imp_right (Or.imp_left ?_)
      rintro ⟨rfl, rfl, hcount⟩
      exact ⟨rfl, (hs.killed hkill (hs.of_held List.mem_cons_self).1).all_free hcount⟩

theorem Called.outcome {code : Int} (hs : Core s (c :: held)) (h : Called cfg c s code e t) :
    e.Completed ∨ e = .halt ∧ (∀ p, p ∈ t.pcbFree_h) ∨ Deadlocked e t := by
  have hcount := hs.count_ne_zero (hs.of_held List.mem_cons_self).1
  have hquiet : e.Completed ∨ Deadlocked e t →
      e.Completed ∨ e = .halt ∧ (∀ p, p ∈ t.pcbFree_h) ∨ Deadlocked e t :=
    Or.imp_right .inr
  cases h with
  | kill p K u htarget hkill hend =>
      cases hend with
      | resume => exact .inl trivial
      | schedule hdead hnext =>
          refine hnext.outcome.imp_right (Or.imp_left ?_)
          rintro ⟨rfl, rfl, hcount⟩
          exact ⟨rfl, (hs.killed hkill (target_alive hs htarget)).all_free hcount⟩
  | killNone htarget hend => exact hquiet (hend.outcome rfl hcount)
  | passeren k hk hsem => exact hquiet (hsem.outcome rfl hcount)
  | verhogen k hk hsem => exact hquiet (hsem.outcome rfl hcount)
  | doIo i hi hsem => exact hquiet (hsem.outcome rfl hcount)
  | clockWait hsem => exact hquiet (hsem.outcome rfl hcount)
  | yield hnext => exact hquiet (hnext.outcome_of (wake_count c _) hcount)
  | invalid hcode hend => exact hend.outcome (hs.quiet (t := s.invalidated) ⟨fun _ ↦ rfl, rfl⟩)
  | _ => exact .inl trivial

theorem Handled.outcome (hs : Core s (s.curr_process.toList ++ held)) (hcount : s.process_count ≠ 0)
    (h : Handled cfg s e t) :
    e.Completed ∨ e = .halt ∧ (∀ p, p ∈ t.pcbFree_h) ∨ Deadlocked e t := by
  cases h with
  | interrupt hcode hend =>
      have hcount' : (s.interrupted cfg).process_count ≠ 0 := by
        rw [interrupted_count]
        exact hcount
      exact (hend.outcome hcount').imp_right .inr
  | call c code hc hcall hend =>
      rw [hc] at hs
      exact hend.outcome (hs.quiet (t := s.advanced) ⟨fun _ ↦ rfl, rfl⟩)
  | passUp c i hc hcall hcode hend =>
      rw [hc] at hs
      exact hend.outcome hs
  | trap c hc hcall hcode hend =>
      rw [hc] at hs
      exact hend.outcome (hs.quiet (t := s.invalidated) ⟨fun _ ↦ rfl, rfl⟩)

/-- Where no process is ready and none runs, all of them wait. -/
theorem Core.all_wait (h : Core s lost) (hlost : Reserved lost s)
    (hready : ∀ prio, s.readyQueue prio = []) (hp : p ∉ s.pcbFree_h) :
    (∃ k, s.semAdd p = some k) ∨ s.pid p = FREE_PCB_PID := by
  cases hk : s.semAdd p with
  | some k => exact .inl ⟨k, rfl⟩
  | none =>
      right
      apply hlost
      have hlow : s.low_readyqueue = [] := hready .low
      have hhigh : s.high_readyqueue = [] := hready .high
      have hplace := h.place p
      simp [List.count_eq_zero.mpr hp, Core.waits_eq_zero_iff.mpr hk, Nucleus.readies, hlow,
        hhigh] at hplace
      exact List.count_pos_iff.mp (by omega)

/-- Whatever the kernel has handled, it has come to an orderly end. -/
theorem Handled.orderly (hs : Sound cfg (s.curr_process.toList ++ lost) s) (hlost : Reserved lost s)
    (hlaw : (Action.exception s.prev).Lawful cfg) (hcount : s.process_count ≠ 0)
    (h : Handled cfg s e t) : Orderly e t := by
  rcases h.outcome hs.core hcount with hdone | ⟨rfl, hfree⟩ | hdead
  · exact .done hdone
  · exact .halt hfree
  · have he : e ≠ .halt := by
      rw [hdead.exit]
      rintro ⟨⟩
    obtain ⟨lost', hlost', hsound⟩ := h.inv hs hlost hlaw he
    rw [hdead.curr] at hsound
    rw [hdead.exit]
    exact .deadlock (hsound.core.left hdead.count) hdead.curr hdead.soft fun p hp ↦
      hsound.core.all_wait hlost' hdead.ready hp

/-! ## Routines that follow no null pointer -/

/-- The exit is no access to memory that is not there. -/
def Exit.InMemory (e : Exit) : Prop := e ≠ .nullDeref ∧ e ≠ .busError

theorem Scheduled.inMemory (h : Scheduled cfg s e t) : e.InMemory := by
  cases h <;> constructor <;> rintro ⟨⟩

variable (cfg) in
theorem scheduler_inMemory (s : Nucleus n) : LeavesOnly (scheduler cfg) s Exit.InMemory := by
  obtain ⟨e, t, hrun, hsched⟩ := scheduler_run cfg s
  exact .of_leaves hrun hsched.inMemory

theorem PassedUp.inMemory {i : Fin 2} (h : PassedUp cfg i c s e t) : e.InMemory := by
  cases h with
  | up => constructor <;> rintro ⟨⟩
  | die K u ha hkill hnext => exact hnext.inMemory

variable (cfg) in
theorem semOp_inMemory (full k : Word) (hs : Core s (c :: held)) (hc : s.curr_process = some c) :
    LeavesOnly (semOp cfg full (some k) s.curr_process s.prev) s Exit.InMemory := by
  have hsem : s.semAdd c = none := (hs.of_held List.mem_cons_self).2.2.1
  rw [hc]
  by_cases hfull : s.mem k = full
  · obtain ⟨e, t, hrun, hsched⟩ := semOp_block cfg s.prev hs.asl hc hsem hfull
    exact .of_leaves hrun hsched.inMemory
  · cases hq : s.asl.queue k with
    | nil => exact .of_returns _ _ (semOp_write cfg _ _ hfull hq)
    | cons p rest => exact .of_returns _ _ (semOp_release cfg _ _ hfull hq)

theorem termProcess_inMemory (hs : Core s held) (hc : s.curr_process = some c) :
    LeavesOnly (termProcess cfg) s Exit.InMemory := by
  intro e u hrun
  rw [leaves_iff] at hrun
  by_cases hpid : s.prev.reg_a1 = 0
  · obtain ⟨K, t, hkill, -⟩ := killProcess_run cfg hs.linked c
    simp only [termProcess, bind_run, get_run, ite_run, hpid, if_true, hc, deref_some,
      hkill] at hrun
    exact scheduler_inMemory cfg t e u hrun
  · cases hp : getProcessByPid s.prev.reg_a1 s with
    | none =>
        simp only [termProcess, bind_run, get_run, ite_run, hpid, if_false, hp, pure_run, hc,
          isAlive_run] at hrun
        split at hrun
        · exact scheduler_inMemory cfg s e u hrun
        · cases hrun
    | some p =>
        obtain ⟨K, t, hkill, hkilled⟩ := killProcess_run cfg hs.linked p
        have hct : t.curr_process = some c := by
          rw [← hc]
          exact congrArg (·.1.2.1) hkilled.torn.kept
        simp only [termProcess, bind_run, get_run, ite_run, hpid, if_false, hp, hkill, hct,
          isAlive_run] at hrun
        split at hrun
        · exact scheduler_inMemory cfg t e u hrun
        · cases hrun

/-- Unless its arguments are those of a fatal call. -/
theorem systemcall_inMemory (hs : Core s (c :: held)) (hc : s.curr_process = some c) (code : Int)
    (hstate : code = CREATEPROCESS → s.pcbFree_h ≠ [] → cfg.ptr s.prev.reg_a1 ≠ none)
    (hsem : code = PASSEREN ∨ code = VERHOGEN → cfg.ptr s.prev.reg_a1 ≠ none)
    (hcommand : code = DOIO → ∃ i, s.prev.reg_a1 = commandAddr i) :
    LeavesOnly (systemcall cfg code) s Exit.InMemory := by
  unfold systemcall
  split
  · rename_i hcode
    cases hf : s.pcbFree_h with
    | nil =>
        refine .of_returns ⟨⟩ (systemcallReturn (-1) s) ?_
        simp only [createProcess, bind_run, get_run, allocPcb_nil hf, modify_run]
    | cons p rest =>
        obtain ⟨statep, hptr⟩ := Option.ne_none_iff_exists'.mp
          (hstate hcode (by rw [hf]; exact List.cons_ne_nil p rest))
        refine .of_returns ⟨⟩ (s.created cfg c p rest statep) ?_
        simp only [createProcess, bind_run, get_run, allocPcb_cons hf, set_run, hptr, deref_some,
          modify_run, hc, Nucleus.created, Nucleus.makeReady, fillPcb_prio]
        rfl
  split
  · exact termProcess_inMemory hs hc
  split
  · rename_i hcode
    obtain ⟨k, hk⟩ := Option.ne_none_iff_exists'.mp (hsem (.inl hcode))
    refine .bind (.of_returns _ _ rfl) ?_
    rintro _ _ ⟨⟩
    rw [hk]
    exact (semOp_inMemory cfg 0 k hs hc).bind fun _ _ _ ↦ .of_returns _ _ rfl
  split
  · rename_i hcode
    obtain ⟨k, hk⟩ := Option.ne_none_iff_exists'.mp (hsem (.inr hcode))
    refine .bind (.of_returns _ _ rfl) ?_
    rintro _ _ ⟨⟩
    rw [hk]
    exact (semOp_inMemory cfg 1 k hs hc).bind fun _ _ _ ↦ .of_returns _ _ rfl
  split
  · rename_i hcode
    obtain ⟨i, hi⟩ := hcommand hcode
    have hcore : Core (s.issue i) (c :: held) := hs.quiet ⟨fun _ ↦ rfl, rfl⟩
    refine .of_eq ?_ ((semOp_inMemory cfg 0 (cfg.devSem i) hcore hc).bind
      fun _ t _ ↦ .of_returns ⟨⟩ t rfl)
    simp only [doIo, bind_run, get_run, hi, storeCommand_run, modify_run, semP,
      getIODeviceSemaphore_commandAddr]
    rfl
  split
  · have hcc : (s.charge cfg c).curr_process = some c := hc
    refine .of_returns ⟨⟩ (s.timed cfg c) ?_
    simp only [getCPUTime, bind_run, updateProcessCPUTime_run cfg hc, get_run, hcc, deref_some,
      modify_run, Nucleus.timed]
  split
  · have hcore : Core { s with softblocked_count := s.softblocked_count + 1 } (c :: held) :=
      hs.quiet ⟨fun _ ↦ rfl, rfl⟩
    exact (semOp_inMemory cfg 0 cfg.semaphore_it hcore hc).bind fun _ t _ ↦
      .of_returns ⟨⟩ t rfl
  split
  · refine .of_returns ⟨⟩ (systemcallReturn (s.supportPtr cfg c) s) ?_
    simp only [getSupportPtr, bind_run, get_run, hc, deref_some, modify_run, Nucleus.supportPtr]
  split
  · by_cases ha : s.prev.reg_a1 = 0
    · refine .of_returns ⟨⟩ (systemcallReturn (s.pid c) s) ?_
      simp only [getProcessId, bind_run, get_run, hc, deref_some, ha, if_true, modify_run]
      rfl
    · cases hp : (s.pcbFree_table c).p_parent with
      | none =>
          refine .of_returns ⟨⟩ (systemcallReturn 0 s) ?_
          simp only [getProcessId, bind_run, get_run, hc, deref_some, ha, if_false, hp, modify_run]
      | some p =>
          refine .of_returns ⟨⟩ (systemcallReturn (s.pid p) s) ?_
          simp only [getProcessId, bind_run, get_run, hc, deref_some, ha, if_false, hp, modify_run]
          rfl
  split
  · have hcc : (({ s.saveState c s.prev with process_to_skip := some c } : Nucleus n).wake
        c).curr_process = some c := (Nucleus.wake_curr c _).trans hc
    have hsave : s.modifyPcb c (fun x ↦ { x with p_s := s.prev }) = s.saveState c s.prev := rfl
    have hskip : ({ s.saveState c s.prev with
        process_to_skip := (s.saveState c s.prev).curr_process } : Nucleus n) =
        { s.saveState c s.prev with process_to_skip := some c } := by
      rw [← hc]
      rfl
    refine .of_eq ?_ (scheduler_inMemory cfg (s.yielded cfg c))
    simp only [yield, bind_run, get_run, hc, deref_some, modify_run, hsave, hskip,
      setProcessReady_run, updateProcessCPUTime_run cfg hcc, Nucleus.yielded]
  · obtain ⟨e, t, hrun, hend⟩ := generateInvalidSystemCallTrap_ends cfg hs.linked hc
    intro e' t' hrun'
    cases hrun.symm.trans hrun'
    exact hend.inMemory

/-! ## The fatal exceptions -/

theorem Orderly.not_stops (h : Orderly e t) : ¬ e.Stops := by
  cases h with
  | done hdone => exact hdone.not_stops
  | halt => rintro (h | h | h | h) <;> cases h
  | deadlock => rintro (h | h | h | h) <;> cases h

/-- The calls that are given no address are never fatal. -/
theorem IsCall.not_fatal {code : Int} (hcall : IsCall s.prev code)
    (hcode : code ∉ [CREATEPROCESS, PASSEREN, VERHOGEN, DOIO]) : ¬ Fatal cfg s := by
  have h8 := hcall.1
  have hother : ∀ code' ∈ [CREATEPROCESS, PASSEREN, VERHOGEN, DOIO], ¬ IsCall s.prev code' := by
    intro code' hmem hcall'
    rw [← hcall.2.2, hcall'.2.2] at hcode
    exact hcode hmem
  intro hfatal
  cases hfatal with
  | unknown hcode => omega
  | noState hcall => exact hother _ (by simp) hcall
  | noSemaphore hcall => exact hcall.elim (hother _ (by simp)) (hother _ (by simp))
  | noCommand hcall => exact hother _ (by simp) hcall
  | noProcess hcode => omega
  | noDevice hcode => omega
  | noStatus hcode => omega
  | noWaiter hcode => omega

theorem Fatal.not_orderly (hnull : cfg.nullRead = .faults) (h : Fatal cfg s) :
    ¬ ∃ e t, exceptionHandler cfg s = .error e t ∧ Orderly e t := by
  rintro ⟨e, t, hrun, hend⟩
  cases h with
  | unknown hcode =>
      have hcodes : ¬ excCode s.prev.cause = 0 ∧ ¬ (excCode s.prev.cause = 1 ∨
          excCode s.prev.cause = 2 ∨ excCode s.prev.cause = 3) ∧ ¬ excCode s.prev.cause = 8 ∧
          ¬ (4 ≤ excCode s.prev.cause ∧ excCode s.prev.cause ≤ 12) := by omega
      simp only [exceptionHandler, bind_run, get_run, ite_run, if_neg hcodes.1,
        if_neg hcodes.2.1, if_neg hcodes.2.2.1, if_neg hcodes.2.2.2] at hrun
      cases hrun
  | noState hcall hfree hptr =>
      obtain ⟨p, rest, hf⟩ := List.exists_cons_of_ne_nil hfree
      have hf' : s.advanced.pcbFree_h = p :: rest := hf
      have hptr' : cfg.ptr s.advanced.prev.reg_a1 = none := hptr
      rw [exceptionHandler_call hcall (by decide), bind_run, systemcall, if_pos rfl] at hrun
      simp only [createProcess, bind_run, get_run, allocPcb_cons hf', set_run, hptr',
        deref_none] at hrun
      cases hrun
      exact hend.not_stops (.inl rfl)
  | noSemaphore hcall hptr =>
      have hptr' : cfg.ptr s.advanced.prev.reg_a1 = none := hptr
      rcases hcall with hcall | hcall
      · have hcode : systemcall cfg PASSEREN = passeren cfg := rfl
        rw [exceptionHandler_call hcall (by decide), bind_run, hcode] at hrun
        simp only [passeren, bind_run, get_run, hptr', semP, semOp, deref_none] at hrun
        cases hrun
        exact hend.not_stops (.inl rfl)
      · have hcode : systemcall cfg VERHOGEN = verhogen cfg := rfl
        rw [exceptionHandler_call hcall (by decide), bind_run, hcode] at hrun
        simp only [verhogen, bind_run, get_run, hptr', semV, semOp, deref_none] at hrun
        cases hrun
        exact hend.not_stops (.inl rfl)
  | noCommand hcall hi =>
      have hcode : systemcall cfg DOIO = doIo cfg := rfl
      have hi' : ∀ i, s.advanced.prev.reg_a1 ≠ commandAddr i := hi
      rw [exceptionHandler_call hcall (by decide), bind_run, hcode] at hrun
      simp only [doIo, bind_run, get_run, storeCommand_error hi'] at hrun
      cases hrun
      exact hend.not_stops (.inr (.inl rfl))
  | noProcess hcode hplt hc =>
      rw [exceptionHandler_interrupt hcode, interruptHandler_run, if_pos hplt,
        pltHandler_none ((interrupted_curr s).trans hc)] at hrun
      cases hrun
      exact hend.not_stops (.inl rfl)
  | noDevice hcode hplt hit line hline hdev =>
      have hdev' : lowestDevice (getDeviceBitmap line (s.interrupted cfg)) = none := by
        rw [getDeviceBitmap, interrupted_mem]
        exact hdev
      rw [exceptionHandler_interrupt hcode, interruptHandler_run, if_neg (not_not.mpr hplt),
        if_neg (not_not.mpr hit), hline, Option.elim, deviceHandler_run (deviceLine_mem hline),
        hdev'] at hrun
      cases hrun
  | noStatus hcode hdev hserved =>
      rw [exceptionHandler_interrupt hcode, devicePending_run hdev, hserved] at hrun
      cases hrun
      exact hend.not_stops (.inr (.inr (.inr rfl)))
  | noWaiter hcode i hi hqueue =>
      rw [exceptionHandler_interrupt hcode, interruptHandler_served hi] at hrun
      have hqueue' : (s.interrupted cfg).asl.queue (cfg.devSem i) = [] := by
        rw [(Quiet.interrupted cfg s).asl]
        exact hqueue
      exact ((complete_ends_iff hnull i).mp ⟨e, t, hrun, hend.not_stops⟩).1 hqueue'

/-! ## All the others -/

/-- A device interrupt that is not fatal finds a process that waits. -/
theorem device_ends (hdevs : ∀ i, s.mem (cfg.devSem i) = 0) (hnull : cfg.nullRead = .faults)
    (hcode : excCode s.prev.cause = 0) (hfatal : ¬ Fatal cfg s) (hdev : s.DevicePending) :
    ∃ e t, interruptHandler cfg s = .error e t ∧ ¬ e.Stops := by
  rw [devicePending_run hdev]
  cases hi : s.served with
  | none => exact absurd (.noStatus hcode hdev hi) hfatal
  | some i =>
      apply (complete_ends_iff hnull i).mpr
      constructor
      · intro hqueue
        rw [(Quiet.interrupted cfg s).asl] at hqueue
        exact hfatal (.noWaiter hcode i hi hqueue)
      · rw [interrupted_mem, hdevs i]
        decide

/-- So do the timers, and the interrupts of no line. -/
theorem timer_ends (hs : Core s held) (hv : s.mem cfg.semaphore_it ≠ 1)
    (hcode : excCode s.prev.cause = 0) (hfatal : ¬ Fatal cfg s) (hdev : ¬ s.DevicePending) :
    ∃ e t, interruptHandler cfg s = .error e t ∧ ¬ e.Stops := by
  have hasl : (s.interrupted cfg).asl.Inv (s.interrupted cfg).semAdd :=
    (hs.quiet (.interrupted cfg s)).asl
  rw [interruptHandler_run]
  by_cases hplt : s.pending &&& LOCALTIMERINT = 0
  · rw [if_neg (not_not.mpr hplt)]
    by_cases hit : s.pending &&& TIMERINTERRUPT = 0
    · rw [if_neg (not_not.mpr hit)]
      cases hline : deviceLine s.pending with
      | none =>
          obtain ⟨e, t, hrun, hend⟩ := interruptHandlerExit_run cfg (s.interrupted cfg)
          exact ⟨e, t, hrun, hend.not_stops⟩
      | some line =>
          cases hlow : lowestDevice (getDeviceBitmap line s) with
          | none => exact absurd (.noDevice hcode hplt hit line hline hlow) hfatal
          | some dev => exact absurd ⟨hplt, hit, line, hline, by rw [hlow]; rfl⟩ hdev
    · have hv' : (s.interrupted cfg).mem cfg.semaphore_it ≠ 1 := by
        rw [interrupted_mem]
        exact hv
      obtain ⟨e, t, hrun, hend⟩ := itHandler_run cfg hasl hv' rfl
      rw [if_pos hit]
      exact ⟨e, t, hrun, hend.not_stops⟩
  · have hc : (s.interrupted cfg).curr_process ≠ none := by
      intro hc
      exact hfatal (.noProcess hcode hplt ((interrupted_curr s).symm.trans hc))
    obtain ⟨c, hc⟩ := Option.ne_none_iff_exists'.mp hc
    obtain ⟨e, t, hrun, hnext⟩ := pltHandler_run cfg hc
    have hend : Finished cfg _ False e t := .schedule not_false hnext
    rw [if_pos hplt]
    exact ⟨e, t, hrun, hend.not_stops⟩

theorem interruptHandler_handled (hs : Core s held) (hv : s.mem cfg.semaphore_it ≠ 1)
    (hdevs : ∀ i, s.mem (cfg.devSem i) = 0) (hnull : cfg.nullRead = .faults)
    (hcode : excCode s.prev.cause = 0) (hfatal : ¬ Fatal cfg s) :
    ∃ e t, interruptHandler cfg s = .error e t ∧ Handled cfg s e t := by
  obtain ⟨e, t, hrun, hstops⟩ : ∃ e t, interruptHandler cfg s = .error e t ∧ ¬ e.Stops := by
    by_cases hdev : s.DevicePending
    · exact device_ends hdevs hnull hcode hfatal hdev
    · exact timer_ends hs hv hcode hfatal hdev
  refine ⟨e, t, hrun, ?_⟩
  rcases interruptHandler_ends hs hv hrun with hend | rfl | ⟨rfl, -⟩ | rfl
  · exact .interrupt hcode hend
  · exact absurd (.inl rfl) hstops
  · exact absurd (.inr (.inr (.inl rfl))) hstops
  · exact absurd (.inr (.inr (.inr rfl))) hstops

/-- A system call that is not fatal. -/
theorem systemcallHandler_handled (hs : Core s (c :: held)) (hc : s.curr_process = some c)
    (hcode : excCode s.prev.cause = 8) (hfatal : ¬ Fatal cfg s) :
    ∃ e t, systemcallHandler cfg s = .error e t ∧ Handled cfg s e t := by
  obtain ⟨e, t, hrun, he⟩ : ∃ e t, systemcallHandler cfg s = .error e t ∧
      e ≠ .nullDeref ∧ e ≠ .busError := by
    by_cases ha : s.prev.reg_a0.toInt ≥ 1
    · obtain ⟨e, t, hrun, hend⟩ := passUpOrDieHandler_ends cfg hs.linked hc GENERALEXCEPT
      refine ⟨e, t, ?_, hend.inMemory⟩
      simp only [systemcallHandler, bind_run, get_run, ite_run, if_pos ha, hrun]
    by_cases hu : s.prev.status &&& USERPON ≠ 0
    · obtain ⟨e, t, hrun, hend⟩ := generateInvalidSystemCallTrap_ends cfg hs.linked hc
      refine ⟨e, t, ?_, hend.inMemory⟩
      simp only [systemcallHandler, bind_run, get_run, ite_run, if_neg ha, if_pos hu, hrun]
    · have hcore : Core s.advanced (c :: held) := hs.quiet ⟨fun _ ↦ rfl, rfl⟩
      have hcall : IsCall s.prev s.prev.reg_a0.toInt := ⟨hcode, not_not.mp hu, rfl⟩
      obtain ⟨e, t, hrun, -⟩ := systemcall_ends cfg hcore hc s.prev.reg_a0.toInt
      have hinMemory : LeavesOnly (systemcall cfg s.prev.reg_a0.toInt >>= fun _ ↦ resume)
          s.advanced Exit.InMemory := by
        apply LeavesOnly.bind
        · apply systemcall_inMemory hcore hc
          · exact fun he hfree hnull ↦ hfatal (.noState (he ▸ hcall) hfree hnull)
          · intro he hnull
            refine hfatal (.noSemaphore (he.imp (fun he ↦ ?_) fun he ↦ ?_) hnull)
            · rw [← he]
              exact hcall
            · rw [← he]
              exact hcall
          · intro he
            by_contra hi
            exact hfatal (.noCommand (he ▸ hcall) fun i h ↦ hi ⟨i, h⟩)
        · intro _ t _ e u hrun
          cases hrun
          constructor <;> rintro ⟨⟩
      refine ⟨e, t, ?_, hinMemory e t hrun⟩
      rw [← hrun]
      simp only [systemcallHandler, bind_run, get_run, ite_run, if_neg ha, if_neg hu, modify_run]
      rfl
  refine ⟨e, t, hrun, ?_⟩
  rcases systemcallHandler_ends hs hc hcode hrun with hend | rfl | rfl
  · exact hend
  · exact absurd rfl he.1
  · exact absurd rfl he.2

theorem exceptionHandler_handled (hs : Core s (s.curr_process.toList ++ held))
    (hv : s.mem cfg.semaphore_it ≠ 1) (hdevs : ∀ i, s.mem (cfg.devSem i) = 0)
    (hnull : cfg.nullRead = .faults) (hcurr : excCode s.prev.cause = 0 ∨ s.curr_process ≠ none)
    (hfatal : ¬ Fatal cfg s) : ∃ e t, exceptionHandler cfg s = .error e t ∧ Handled cfg s e t := by
  by_cases h0 : excCode s.prev.cause = 0
  · rw [exceptionHandler_interrupt h0]
    exact interruptHandler_handled hs hv hdevs hnull h0 hfatal
  obtain ⟨c, hc⟩ := Option.ne_none_iff_exists'.mp (hcurr.resolve_left h0)
  have hs' : Core s (c :: held) := by rwa [hc] at hs
  by_cases h8 : excCode s.prev.cause = 8
  · obtain ⟨e, t, hrun, hend⟩ := systemcallHandler_handled hs' hc h8 hfatal
    have hcodes : ¬ (excCode s.prev.cause = 1 ∨ excCode s.prev.cause = 2 ∨
        excCode s.prev.cause = 3) := by omega
    refine ⟨e, t, ?_, hend⟩
    simp only [exceptionHandler, bind_run, get_run, ite_run, if_neg h0, if_neg hcodes, if_pos h8,
      hrun]
  · have hmax : excCode s.prev.cause ≤ 12 := by
      by_contra hcode
      exact hfatal (.unknown (by omega))
    have hcall : ∀ code ∈ syscallCodes, ¬ IsCall s.prev code := fun code _ hcall ↦ h8 hcall.1
    by_cases htlb : excCode s.prev.cause = 1 ∨ excCode s.prev.cause = 2 ∨ excCode s.prev.cause = 3
    · obtain ⟨e, t, hrun, hend⟩ := passUpOrDieHandler_ends cfg hs'.linked hc PGFAULTEXCEPT
      refine ⟨e, t, ?_, .passUp c PGFAULTEXCEPT hc hcall h0 hend⟩
      simp only [exceptionHandler, bind_run, get_run, ite_run, if_neg h0, if_pos htlb, hrun]
    · obtain ⟨e, t, hrun, hend⟩ := passUpOrDieHandler_ends cfg hs'.linked hc GENERALEXCEPT
      have hcodes : 4 ≤ excCode s.prev.cause ∧ excCode s.prev.cause ≤ 12 := by omega
      refine ⟨e, t, ?_, .passUp c GENERALEXCEPT hc hcall h0 hend⟩
      simp only [exceptionHandler, bind_run, get_run, ite_run, if_neg h0, if_neg htlb, if_neg h8,
        if_pos hcodes, hrun]

/-! ## Every reachable state -/

/-- The first process is alive as long as the kernel goes on. -/
theorem reachable_count_ne_zero (hs : Reachable (Start cfg) (NucStep cfg) s) :
    s.process_count ≠ 0 := by
  obtain ⟨hinv, r, hr⟩ := hs.invariant (I := fun s ↦ Inv cfg s ∧ ∃ r, Rooted r s)
    (fun s h ↦ ⟨h.inv, h.rooted.imp fun _ h ↦ h.2⟩)
    fun s a t h hstep ↦ ⟨hstep.inv h.1, h.2.imp fun _ hr ↦ hstep.rooted h.1 hr⟩
  obtain ⟨lost, -, hsound⟩ := hinv
  exact hsound.core.count_ne_zero hr.alive

end PandosPlus
