import PandosPlus.Phase2.Syscalls

/-!
# How the interrupts end

An interrupt is served for the local timer, the clock, or one device register; the
interrupted process is then resumed, and without one the scheduler is called.
`Interrupted` has one constructor for each of these.

The register served is the one of the lowest device of the first line with an
interrupt pending; for a terminal its receiver, if a character has been received,
and otherwise its transmitter (`Nucleus.served`).  A completion releases the process
that waits at the semaphore of the register.  If there is none, `semV` returns
`NULL`, and what `IS_ALIVE` makes of it decides how the handler goes on.
-/

namespace PandosPlus

open Flow

variable {n : Nat}

/-! ## Which device is served -/

/-- The first device line with an interrupt pending. -/
def deviceLine (ip : Word) : Option Nat :=
  if ip &&& DISKINTERRUPT ≠ 0 then some IL_DISK
  else if ip &&& FLASHINTERRUPT ≠ 0 then some IL_FLASH
  else if ip &&& NETINTERRUPT ≠ 0 then some IL_ETHERNET
  else if ip &&& PRINTINTERRUPT ≠ 0 then some IL_PRINTER
  else if ip &&& TERMINTERRUPT ≠ 0 then some IL_TERMINAL
  else none

/-- The lowest device in a bitmap. -/
def lowestDevice (bitmap : Word) : Option Nat :=
  (List.range N_DEV_PER_IL).find? fun i ↦ bitmap &&& ((1 : Word) <<< i) ≠ 0

/-- The index of a command field: for a terminal that of its receiver. -/
def regIndex (line dev : Nat) : Fin TOTAL_IO_DEVICES :=
  Fin.ofNat 48 ((line - 3) * N_DEV_PER_IL + dev)

/-- The index of the transmitter of a terminal. -/
def transmIndex (dev : Nat) : Fin TOTAL_IO_DEVICES := Fin.ofNat 48 (40 + dev)

namespace Nucleus

/-- The pending interrupts in the saved state. -/
def pending (s : Nucleus n) : Word := s.prev.cause &&& CAUSE_IP_MASK

/-- The register of a device that an interrupt of its line serves. -/
def servedOf (s : Nucleus n) (line dev : Nat) : Option (Fin TOTAL_IO_DEVICES) :=
  if line ≠ IL_TERMINAL then some (regIndex line dev)
  else if TERMINAL_STATUS (s.mem (statusAddr (regIndex line dev))) = CHAR_RECEIVED then
    some (regIndex line dev)
  else if TERMINAL_STATUS (s.mem (statusAddr (transmIndex dev))) = CHAR_TRANSMITTED then
    some (transmIndex dev)
  else none

/-- The register the interrupt is served for, if that is a device. -/
def served (s : Nucleus n) : Option (Fin TOTAL_IO_DEVICES) :=
  if s.pending &&& LOCALTIMERINT ≠ 0 ∨ s.pending &&& TIMERINTERRUPT ≠ 0 then none
  else (deviceLine s.pending).bind fun line ↦
    (lowestDevice (getDeviceBitmap line s)).bind fun dev ↦ s.servedOf line dev

theorem served_eq_some {s : Nucleus n} {i : Fin TOTAL_IO_DEVICES} (h : s.served = some i) :
    ¬ s.pending &&& LOCALTIMERINT ≠ 0 ∧ ¬ s.pending &&& TIMERINTERRUPT ≠ 0 ∧
      ∃ line dev, deviceLine s.pending = some line ∧
        lowestDevice (getDeviceBitmap line s) = some dev ∧ s.servedOf line dev = some i := by
  unfold served at h
  split at h
  · cases h
  · rename_i htimer
    obtain ⟨line, hline, h⟩ := Option.bind_eq_some_iff.mp h
    obtain ⟨dev, hdev, h⟩ := Option.bind_eq_some_iff.mp h
    exact ⟨fun e ↦ htimer (.inl e), fun e ↦ htimer (.inr e), line, dev, hline, hdev, h⟩

/-! ## What the handlers do -/

/-- The entry of `interruptHandler`. -/
def interrupted (cfg : Config n) (s : Nucleus n) : Nucleus n :=
  match s.curr_process with
  | some c => disableTimer (s.charge cfg c)
  | none => disableTimer s

/-- `_interruptHandlerExit` before it leaves. -/
def leaving (cfg : Config n) (s : Nucleus n) : Nucleus n := (enableTimer s).flush cfg

/-- `_PLTHandler` before the scheduler. -/
def preempted (cfg : Config n) (c : Fin n) (s : Nucleus n) : Nucleus n :=
  { (((startPLT s).saveState c s.prev).charge cfg c).wake c with curr_process := none }

/-- One turn of the loop of `_ITHandler`. -/
def wakeClock (k : Word) (p : Fin n) (s : Nucleus n) : Nucleus n :=
  { (s.unblock k p).wake p with softblocked_count := s.softblocked_count - 1 }

/-- `_ITHandler` before it leaves, when the processes in the list wait for the clock. -/
def ticked (cfg : Config n) (l : List (Fin n)) (s : Nucleus n) : Nucleus n :=
  let t := (l.foldl (fun s p ↦ s.wakeClock cfg.semaphore_it p) s).store cfg.semaphore_it 0
  { t with clock := t.clock + 1, it := PSECOND - (cfg.tod t.clock).tmod PSECOND }

/-- A completion handed to the process that waits for it. -/
def answered (cfg : Config n) (i : Fin TOTAL_IO_DEVICES) (p : Fin n) (s : Nucleus n) :
    Nucleus n :=
  let status := s.mem (statusAddr i)
  let t := ((s.store (commandAddr i) ACK).unblock (cfg.devSem i) p).makeReady p
  ({ t with softblocked_count := t.softblocked_count - 1 }).modifyPcb p
    fun x ↦ { x with p_s := { x.p_s with reg_v0 := status } }

end Nucleus

variable (cfg : Config n)

/-- How `_deviceInterruptReturn` comes to its end for register `i`. -/
inductive DeviceReturn (i : Fin TOTAL_IO_DEVICES) (s : Nucleus n) : Nucleus n → Prop
  /-- The first waiter receives the status. -/
  | wake (p : Fin n) (rest : List (Fin n)) (hv : s.mem (cfg.devSem i) ≠ 1)
      (hqueue : s.asl.queue (cfg.devSem i) = p :: rest) (hp : s.pid p ≠ FREE_PCB_PID) :
      DeviceReturn i s (s.answered cfg i p)
  /-- The first waiter carries the reserved pid and is dropped. -/
  | drop (p : Fin n) (rest : List (Fin n)) (hv : s.mem (cfg.devSem i) ≠ 1)
      (hqueue : s.asl.queue (cfg.devSem i) = p :: rest) (hp : s.pid p = FREE_PCB_PID) :
      DeviceReturn i s ((s.store (commandAddr i) ACK).unblock (cfg.devSem i) p)
  /-- No one waits any more. -/
  | late (hv : s.mem (cfg.devSem i) ≠ 1) (hqueue : s.asl.queue (cfg.devSem i) = [])
      (hnull : cfg.nullRead = .dead) :
      DeviceReturn i s ((s.store (commandAddr i) ACK).store (cfg.devSem i) 1)

/-- How `interruptHandler` ends, from the state after its entry. -/
inductive Interrupted (s : Nucleus n) : Exit → Nucleus n → Prop
  | plt {e : Exit} {t : Nucleus n} (c : Fin n) (hc : s.curr_process = some c)
      (hip : s.pending &&& LOCALTIMERINT ≠ 0) (hnext : Scheduled cfg (s.preempted cfg c) e t) :
      Interrupted s e t
  | clock {e : Exit} {t : Nucleus n} (l : List (Fin n)) (hl : s.asl.queue cfg.semaphore_it = l)
      (hip : s.pending &&& TIMERINTERRUPT ≠ 0)
      (hend : Finished cfg ((s.ticked cfg l).leaving cfg)
        ((s.ticked cfg l).curr_process ≠ none) e t) : Interrupted s e t
  | device {e : Exit} {t : Nucleus n} (i : Fin TOTAL_IO_DEVICES) (u : Nucleus n)
      (hi : s.served = some i) (hret : DeviceReturn cfg i s u)
      (hend : Finished cfg (u.leaving cfg) (u.curr_process ≠ none) e t) : Interrupted s e t
  | none {e : Exit} {t : Nucleus n} (hi : s.served = none)
      (hend : Finished cfg (s.leaving cfg) (s.curr_process ≠ none) e t) : Interrupted s e t

variable {cfg} {s t : Nucleus n} {c p : Fin n} {held : List (Fin n)}

variable (cfg) in
theorem interruptHandlerExit_run (s : Nucleus n) :
    ∃ e t, interruptHandlerExit cfg s = .error e t ∧
      Finished cfg (s.leaving cfg) (s.curr_process ≠ none) e t := by
  by_cases hc : s.curr_process ≠ none
  · refine ⟨_, _, ?_, .resume hc⟩
    have hc' : (enableTimer s).curr_process ≠ none := hc
    simp only [interruptHandlerExit, bind_run, modify_run, timerFlush_run, get_run, ite_run]
    rw [if_pos (show ((enableTimer s).flush cfg).curr_process ≠ none from hc)]
    rfl
  · obtain ⟨e, t, hrun, hsched⟩ := scheduler_run cfg (s.leaving cfg)
    refine ⟨e, t, ?_, .schedule hc hsched⟩
    simp only [interruptHandlerExit, bind_run, modify_run, timerFlush_run, get_run, ite_run]
    rw [if_neg (show ¬ ((enableTimer s).flush cfg).curr_process ≠ none from hc)]
    exact hrun

/-! ## The timers -/

variable (cfg) in
theorem pltHandler_run (hc : s.curr_process = some c) :
    ∃ e t, pltHandler cfg s = .error e t ∧ Scheduled cfg (s.preempted cfg c) e t := by
  obtain ⟨e, t, hrun, hsched⟩ := scheduler_run cfg (s.preempted cfg c)
  refine ⟨e, t, ?_, hsched⟩
  have hc' : (startPLT s).curr_process = some c := hc
  have hc'' : ((startPLT s).saveState c s.prev).curr_process = some c := hc
  have hsave : (startPLT s).modifyPcb c (fun x ↦ { x with p_s := (startPLT s).prev }) =
      (startPLT s).saveState c s.prev := rfl
  simp only [pltHandler, bind_run, modify_run, get_run, hc', deref_some, hsave,
    updateProcessCPUTime_run cfg hc'', setProcessReady_run]
  exact hrun

theorem pltHandler_none (hc : s.curr_process = none) :
    pltHandler cfg s = .error .nullDeref (startPLT s) := by
  have hc' : (startPLT s).curr_process = none := hc
  simp only [pltHandler, bind_run, modify_run, get_run, hc', deref_none]

/-! ### The clock -/

namespace Nucleus

@[simp] theorem wakeClock_semAdd (k : Word) (p : Fin n) (s : Nucleus n) :
    (s.wakeClock k p).semAdd = (s.unblock k p).semAdd := by
  rw [← wake_semAdd p (s.unblock k p)]
  rfl

@[simp] theorem wakeClock_asl (k : Word) (p : Fin n) (s : Nucleus n) :
    (s.wakeClock k p).asl = (s.unblock k p).asl := wake_asl p _

@[simp] theorem wakeClock_mem (k : Word) (p : Fin n) (s : Nucleus n) :
    (s.wakeClock k p).mem = s.mem := wake_mem p _

@[simp] theorem wakeClock_pid (k : Word) (p : Fin n) (s : Nucleus n) :
    (s.wakeClock k p).pid = s.pid :=
  (wake_pid p (s.unblock k p)).trans
    (funext fun q ↦ modifyPcb_field Pcb.p_pid (by intro; rfl) _ p q)

@[simp] theorem wakeClock_prio (k : Word) (p : Fin n) (s : Nucleus n) :
    (s.wakeClock k p).prio = s.prio :=
  (wake_prio p (s.unblock k p)).trans
    (funext fun q ↦ modifyPcb_field Pcb.p_prio (by intro; rfl) _ p q)

/-- The loop of `_ITHandler` appends the waiters to the ready queues, in order. -/
theorem wakeClocks_ready (k : Word) (l : List (Fin n)) (s : Nucleus n) :
    let t := l.foldl (fun s p ↦ s.wakeClock k p) s
    (∀ pr, t.readyQueue pr =
      s.readyQueue pr ++ (l.filter (s.pid · ≠ FREE_PCB_PID)).filter (s.prio · = pr)) ∧
      t.prio = s.prio ∧ t.process_to_skip = s.process_to_skip ∧
      t.curr_process = s.curr_process ∧ t.plt = s.plt := by
  induction l generalizing s with
  | nil => exact ⟨fun pr ↦ (List.append_nil _).symm, rfl, rfl, rfl, rfl⟩
  | cons p l ih =>
      obtain ⟨hready, hprio, hskip, hcurr, hplt⟩ := ih (s.wakeClock k p)
      have hturn : ∀ pr, (s.wakeClock k p).readyQueue pr = s.readyQueue pr ++
          ([p].filter (s.pid · ≠ FREE_PCB_PID)).filter (s.prio · = pr) := fun pr ↦ by
        have hwake := wake_readyQueue p (s.unblock k p) pr
        rw [show (s.unblock k p).pid = s.pid from
            funext fun q ↦ modifyPcb_field Pcb.p_pid (by intro; rfl) _ p q,
          show (s.unblock k p).prio = s.prio from
            funext fun q ↦ modifyPcb_field Pcb.p_prio (by intro; rfl) _ p q] at hwake
        cases pr <;> exact hwake
      refine ⟨fun pr ↦ ?_, hprio.trans (wakeClock_prio k p s),
        hskip.trans (wake_skip p (s.unblock k p)), hcurr.trans (wake_curr p (s.unblock k p)),
        hplt.trans (wake_plt p (s.unblock k p))⟩
      rw [List.foldl_cons, hready, hturn, wakeClock_pid, wakeClock_prio, List.append_assoc,
        ← List.filter_append, ← List.filter_append, List.singleton_append]

end Nucleus

/-- The loop of `_ITHandler` wakes the waiters one by one: each turn releases the first,
and the word is never `1`. -/
theorem wakeClockWaiters_run {l : List (Fin n)} {fuel : Nat} (h : s.asl.Inv s.semAdd)
    (hv : s.mem cfg.semaphore_it ≠ 1) (hl : s.asl.queue cfg.semaphore_it = l)
    (hfuel : l.length < fuel) :
    wakeClockWaiters cfg fuel s =
      .ok ⟨⟩ (l.foldl (fun s p ↦ s.wakeClock cfg.semaphore_it p) s) := by
  induction l generalizing s fuel with
  | nil =>
      obtain ⟨fuel, rfl⟩ : ∃ m, fuel = m + 1 := ⟨fuel - 1, by omega⟩
      have hhead : headBlocked cfg.semaphore_it s = none := by rw [headBlocked_eq, hl]; rfl
      simp only [wakeClockWaiters, bind_run, get_run, ite_run, hhead, ne_eq, not_true_eq_false,
        if_false, pure_run, List.foldl_nil]
  | cons p l ih =>
      obtain ⟨fuel, rfl⟩ : ∃ m, fuel = m + 1 := ⟨fuel - 1, by omega⟩
      have hhead : headBlocked cfg.semaphore_it s = some p := by rw [headBlocked_eq, hl]; rfl
      have hp : s.semAdd p = some cfg.semaphore_it :=
        h.mem_queue.mp (by rw [hl]; exact List.mem_cons_self)
      have hstep : wakeClockWaiters cfg (fuel + 1) s =
          wakeClockWaiters cfg fuel (s.wakeClock cfg.semaphore_it p) := by
        simp only [wakeClockWaiters, bind_run, get_run, ite_run, hhead, ne_eq, reduceCtorEq,
          not_false_eq_true, if_true, semV, semOp_release cfg _ _ hv hl, modify_run,
          Nucleus.wake_soft]
        rfl
      have hqueue : (s.wakeClock cfg.semaphore_it p).asl.queue cfg.semaphore_it = l := by
        rw [Nucleus.wakeClock_asl, Nucleus.unblock_queue h hp, if_pos rfl, hl,
          List.erase_cons_head]
      rw [hstep, List.foldl_cons]
      refine ih ?_ ?_ hqueue (by rw [List.length_cons] at hfuel; omega)
      · rw [Nucleus.wakeClock_asl, Nucleus.wakeClock_semAdd]
        exact Nucleus.unblock_asl h hp
      · rwa [Nucleus.wakeClock_mem]

variable (cfg) in
/-- The loop comes to its end: a queue has no more than `MAXPROC` processes. -/
theorem itHandler_run (h : s.asl.Inv s.semAdd) (hv : s.mem cfg.semaphore_it ≠ 1)
    {l : List (Fin n)} (hl : s.asl.queue cfg.semaphore_it = l) :
    ∃ e t, itHandler cfg s = .error e t ∧
      Finished cfg ((s.ticked cfg l).leaving cfg) ((s.ticked cfg l).curr_process ≠ none) e t := by
  obtain ⟨e, t, hrun, hend⟩ := interruptHandlerExit_run cfg (s.ticked cfg l)
  refine ⟨e, t, ?_, hend⟩
  have hlen : l.length < n + 1 := by
    have := (h.queue_nodup (k := cfg.semaphore_it)).length_le_card
    rw [Fintype.card_fin, hl] at this
    omega
  simp only [itHandler, bind_run, wakeClockWaiters_run h hv hl hlen, modify_run]
  exact hrun

/-! ## The devices -/

theorem devSem_ne_bus {a : Word} (i : Fin TOTAL_IO_DEVICES) (ha : IsBusAddr a) :
    cfg.devSem i ≠ a := by
  have hram := cfg.devices_ram
  have hend := cfg.devices_end
  have hi := i.isLt
  obtain ⟨_, hlt⟩ := ha
  unfold RAMSTART at hram hlt
  unfold Config.devSem
  simp only [TOTAL_IO_DEVICES] at hi hend
  bv_omega

theorem semaphore_it_ne_bus {a : Word} (ha : IsBusAddr a) : cfg.semaphore_it ≠ a := by
  have hram := cfg.it_ram
  obtain ⟨_, hlt⟩ := ha
  bv_omega

@[simp] theorem Nucleus.store_same (s : Nucleus n) (a v : Word) : (s.store a v).mem a = v :=
  if_pos rfl

theorem Nucleus.store_ne (s : Nucleus n) {a b : Word} (v : Word) (h : b ≠ a) :
    (s.store a v).mem b = s.mem b := if_neg h

/-- What `_deviceInterruptReturn` does when it comes to its end. -/
theorem deviceInterruptReturn_run {i : Fin TOTAL_IO_DEVICES}
    (hend : s.mem (cfg.devSem i) ≠ 1 ∧
      (s.asl.queue (cfg.devSem i) = [] → cfg.nullRead = .dead)) :
    ∃ u, deviceInterruptReturn cfg (s.mem (statusAddr i)) (commandAddr i) s = .ok ⟨⟩ u ∧
      DeviceReturn cfg i s u := by
  have hv : (s.store (commandAddr i) ACK).mem (cfg.devSem i) ≠ 1 := by
    rw [Nucleus.store_ne _ _ (devSem_ne_bus i (commandAddr_bus i))]
    exact hend.1
  cases hq : s.asl.queue (cfg.devSem i) with
  | nil =>
      have hnull := hend.2 hq
      refine ⟨_, ?_, .late hend.1 hq hnull⟩
      have hsem : semV cfg (some (cfg.devSem i)) none .zero (s.store (commandAddr i) ACK) = _ :=
        semOp_write cfg none .zero hv hq
      simp only [deviceInterruptReturn, bind_run, modify_run, getIODeviceSemaphore_commandAddr,
        hsem, isAlive, get_run, ite_run, hnull, if_true, pure_run, Bool.false_eq_true, if_false]
  | cons p rest =>
      have hsem : semV cfg (some (cfg.devSem i)) none .zero (s.store (commandAddr i) ACK) = _ :=
        semOp_release cfg none .zero hv hq
      have hpid : ((s.store (commandAddr i) ACK).unblock (cfg.devSem i) p).pid p = s.pid p :=
        Nucleus.modifyPcb_field Pcb.p_pid (by intro; rfl) _ p p
      have hpid' := (congrFun (Nucleus.wake_pid p _) p).trans hpid
      by_cases hp : s.pid p ≠ FREE_PCB_PID
      · have halive := isAlive_live cfg (hpid'.trans_ne hp)
        rw [Nucleus.wake, hpid, if_neg hp] at hsem halive
        refine ⟨_, ?_, .wake p rest hend.1 hq hp⟩
        simp only [deviceInterruptReturn, bind_run, modify_run, getIODeviceSemaphore_commandAddr,
          hsem, halive, if_true, deref_some, Nucleus.answered]
      · have hdead := isAlive_dead cfg (fun h ↦ hp (hpid' ▸ h))
        rw [Nucleus.wake, hpid, if_pos (not_not.mp hp)] at hsem hdead
        refine ⟨_, ?_, .drop p rest hend.1 hq (not_not.mp hp)⟩
        simp only [deviceInterruptReturn, bind_run, modify_run, getIODeviceSemaphore_commandAddr,
          hsem, hdead, Bool.false_eq_true, if_false, pure_run]

/-- No one waits, and reading `p_pid` through `NULL` faults. -/
theorem deviceInterruptReturn_null {i : Fin TOTAL_IO_DEVICES} (hv : s.mem (cfg.devSem i) ≠ 1)
    (hq : s.asl.queue (cfg.devSem i) = []) (hnull : cfg.nullRead = .faults) (status : Word) :
    ∃ u, deviceInterruptReturn cfg status (commandAddr i) s = .error .nullDeref u := by
  have hv' : (s.store (commandAddr i) ACK).mem (cfg.devSem i) ≠ 1 := by
    rw [Nucleus.store_ne _ _ (devSem_ne_bus i (commandAddr_bus i))]
    exact hv
  have hsem : semV cfg (some (cfg.devSem i)) none .zero (s.store (commandAddr i) ACK) = _ :=
    semOp_write cfg none .zero hv' hq
  refine ⟨(s.store (commandAddr i) ACK).store (cfg.devSem i) 1, ?_⟩
  simp only [deviceInterruptReturn, bind_run, modify_run, getIODeviceSemaphore_commandAddr, hsem,
    isAlive, get_run, hnull, reduceCtorEq, if_false, throw_run]

/-- `NULL` is no process to insert in a queue. -/
theorem insertBlocked_none (k : Word) (s : Nucleus n) :
    (∃ u, insertBlocked k none s = .error .nullDeref u) ∨
      ∃ u, insertBlocked k none s = .ok true u := by
  cases hk : peekActiveSemaphore k s.asl with
  | some d =>
      refine .inl ⟨s, ?_⟩
      simp only [insertBlocked, bind_run, get_run, hk, deref_none]
  | none =>
      cases hinit : initSemaphore k s.asl with
      | none =>
          refine .inr ⟨s, ?_⟩
          simp only [insertBlocked, bind_run, get_run, hk, hinit, pure_run]
      | some x =>
          refine .inl ⟨{ s with asl := x.2 }, ?_⟩
          simp only [insertBlocked, bind_run, get_run, hk, hinit, set_run, deref_none]

/-- The semaphore is up already: `semV` would block `NULL`. -/
theorem deviceInterruptReturn_full {i : Fin TOTAL_IO_DEVICES} (hv : s.mem (cfg.devSem i) = 1)
    (status : Word) :
    ∃ e u, deviceInterruptReturn cfg status (commandAddr i) s = .error e u ∧
      (e = .nullDeref ∨ e = .panic .noSemaphore) := by
  have hv' : (s.store (commandAddr i) ACK).mem (cfg.devSem i) = 1 := by
    rw [Nucleus.store_ne _ _ (devSem_ne_bus i (commandAddr_bus i))]
    exact hv
  rcases insertBlocked_none (cfg.devSem i) (s.store (commandAddr i) ACK) with ⟨u, hu⟩ | ⟨u, hu⟩
  · refine ⟨.nullDeref, u, ?_, .inl rfl⟩
    simp only [deviceInterruptReturn, bind_run, modify_run, getIODeviceSemaphore_commandAddr, semV,
      semOp, deref_some, get_run, ite_run, hv', if_true, hu]
  · refine ⟨.panic .noSemaphore, u, ?_, .inr rfl⟩
    simp only [deviceInterruptReturn, bind_run, modify_run, getIODeviceSemaphore_commandAddr, semV,
      semOp, deref_some, get_run, ite_run, hv', if_true, hu, throw_run]

/-! ### Selecting the device -/

/-- The fields of the register of a device. -/
theorem devRegAddr_regIndex : ∀ line ∈ [3, 4, 5, 6, 7], ∀ dev ∈ List.range N_DEV_PER_IL,
    devRegAddr line dev = statusAddr (regIndex line dev) ∧
      devRegAddr line dev + 0x4 = commandAddr (regIndex line dev) := by decide

/-- The fields of the transmitter of a terminal. -/
theorem devRegAddr_transmIndex : ∀ dev ∈ List.range N_DEV_PER_IL,
    devRegAddr IL_TERMINAL dev + 0x8 = statusAddr (transmIndex dev) ∧
      devRegAddr IL_TERMINAL dev + 0xC = commandAddr (transmIndex dev) := by decide

variable (cfg) in
/-- The routine a completion of register `i` runs. -/
def complete (i : Fin TOTAL_IO_DEVICES) (s : Nucleus n) : NucM n Unit := do
  deviceInterruptReturn cfg (s.mem (statusAddr i)) (commandAddr i)
  interruptHandlerExit cfg

section Turn

variable {line dev : Nat} {bitmap : Word}

theorem deviceTurn_skip (h : ¬ bitmap &&& ((1 : Word) <<< dev) ≠ 0) (s : Nucleus n) :
    deviceTurn cfg line bitmap dev s = .ok ⟨⟩ s := by
  simp only [deviceTurn, ite_run, if_neg h, pure_run]

theorem deviceTurn_some (hline : line ∈ [3, 4, 5, 6, 7]) (hdev : dev ∈ List.range N_DEV_PER_IL)
    (h : bitmap &&& ((1 : Word) <<< dev) ≠ 0) {i : Fin TOTAL_IO_DEVICES}
    (hi : s.servedOf line dev = some i) :
    deviceTurn cfg line bitmap dev s = complete cfg i s s := by
  obtain ⟨hstatus, hcommand⟩ := devRegAddr_regIndex line hline dev hdev
  obtain ⟨hstatus', hcommand'⟩ := devRegAddr_transmIndex dev hdev
  unfold Nucleus.servedOf at hi
  by_cases hterm : line = IL_TERMINAL
  · subst hterm
    rw [if_neg (not_not.mpr rfl), ← hstatus, ← hstatus'] at hi
    by_cases hrecv : TERMINAL_STATUS (s.mem (devRegAddr IL_TERMINAL dev)) = CHAR_RECEIVED
    · rw [if_pos hrecv] at hi
      cases hi
      simp only [deviceTurn, ite_run, if_pos h, ne_eq, not_true_eq_false, if_false, bind_run,
        terminalHandler, get_run, if_pos hrecv, complete, hcommand, ← hstatus]
    · rw [if_neg hrecv] at hi
      by_cases htransm : TERMINAL_STATUS (s.mem (devRegAddr IL_TERMINAL dev + 0x8)) =
          CHAR_TRANSMITTED
      · rw [if_pos htransm] at hi
        cases hi
        simp only [deviceTurn, ite_run, if_pos h, ne_eq, not_true_eq_false, if_false, bind_run,
          terminalHandler, get_run, if_neg hrecv, if_pos htransm, complete, hcommand', ← hstatus']
      · rw [if_neg htransm] at hi
        cases hi
  · rw [if_pos hterm] at hi
    cases hi
    simp only [deviceTurn, ite_run, if_pos h, if_pos hterm, bind_run, nonTerminalHandler, get_run,
      complete, hcommand, ← hstatus]

theorem deviceTurn_none (hline : line ∈ [3, 4, 5, 6, 7]) (hdev : dev ∈ List.range N_DEV_PER_IL)
    (h : bitmap &&& ((1 : Word) <<< dev) ≠ 0) (hi : s.servedOf line dev = none) :
    deviceTurn cfg line bitmap dev s = .error (.panic .terminal) s := by
  obtain ⟨hstatus, -⟩ := devRegAddr_regIndex line hline dev hdev
  obtain ⟨hstatus', -⟩ := devRegAddr_transmIndex dev hdev
  unfold Nucleus.servedOf at hi
  by_cases hterm : line = IL_TERMINAL
  · subst hterm
    rw [if_neg (not_not.mpr rfl), ← hstatus, ← hstatus'] at hi
    by_cases hrecv : TERMINAL_STATUS (s.mem (devRegAddr IL_TERMINAL dev)) = CHAR_RECEIVED
    · rw [if_pos hrecv] at hi
      cases hi
    · rw [if_neg hrecv] at hi
      by_cases htransm : TERMINAL_STATUS (s.mem (devRegAddr IL_TERMINAL dev + 0x8)) =
          CHAR_TRANSMITTED
      · rw [if_pos htransm] at hi
        cases hi
      · simp only [deviceTurn, ite_run, if_pos h, ne_eq, not_true_eq_false, if_false, bind_run,
          terminalHandler, get_run, if_neg hrecv, if_neg htransm, throw_run]
  · rw [if_pos hterm] at hi
    cases hi

end Turn

variable (cfg) in
/-- Serving a register never comes back to the loop over the devices. -/
theorem complete_leaves (i : Fin TOTAL_IO_DEVICES) (s : Nucleus n) :
    ∃ e t, complete cfg i s s = .error e t ∧
      ((∃ u, DeviceReturn cfg i s u ∧ Finished cfg (u.leaving cfg) (u.curr_process ≠ none) e t) ∨
        e = .nullDeref ∨ e = .panic .noSemaphore ∧ s.mem (cfg.devSem i) = 1) := by
  by_cases hv : s.mem (cfg.devSem i) = 1
  · obtain ⟨e, u, hrun, he⟩ := deviceInterruptReturn_full hv (s.mem (statusAddr i))
    exact ⟨e, u, by simp only [complete, bind_run, hrun], .inr (he.imp_right fun he ↦ ⟨he, hv⟩)⟩
  by_cases hend : s.asl.queue (cfg.devSem i) = [] → cfg.nullRead = .dead
  · obtain ⟨u, hrun, hret⟩ := deviceInterruptReturn_run ⟨hv, hend⟩
    obtain ⟨e, t, hexit, hfin⟩ := interruptHandlerExit_run cfg u
    exact ⟨e, t, by simp only [complete, bind_run, hrun, hexit], .inl ⟨u, hret, hfin⟩⟩
  · rw [Classical.not_imp] at hend
    have hnull : cfg.nullRead = .faults := by
      cases hr : cfg.nullRead with
      | faults => rfl
      | dead => exact absurd hr hend.2
    obtain ⟨u, hrun⟩ := deviceInterruptReturn_null hv hend.1 hnull (s.mem (statusAddr i))
    exact ⟨_, u, by simp only [complete, bind_run, hrun], .inr (.inl rfl)⟩

theorem lowestDevice_mem {bitmap : Word} {dev : Nat} (h : lowestDevice bitmap = some dev) :
    dev ∈ List.range N_DEV_PER_IL ∧ bitmap &&& ((1 : Word) <<< dev) ≠ 0 := by
  exact ⟨List.mem_of_find?_eq_some h, by simpa using List.find?_some h⟩

/-- The loop of `_deviceHandler` serves the lowest device of the line. -/
theorem deviceHandler_run {line : Nat} (hline : line ∈ [3, 4, 5, 6, 7]) (s : Nucleus n) :
    deviceHandler cfg line s =
      match lowestDevice (getDeviceBitmap line s) with
      | none => .ok ⟨⟩ s
      | some dev =>
          match s.servedOf line dev with
          | none => .error (.panic .terminal) s
          | some i => complete cfg i s s := by
  have hloop := forM_find
    (fun i ↦ decide (getDeviceBitmap line s &&& ((1 : Word) <<< i) ≠ 0))
    (deviceTurn cfg line (getDeviceBitmap line s)) s (List.range N_DEV_PER_IL)
    (fun i hi ↦ deviceTurn_skip (of_decide_eq_false hi) s) (fun i hi hbit ↦ by
      cases hserved : s.servedOf line i with
      | none => exact ⟨_, _, deviceTurn_none hline hi (of_decide_eq_true hbit) hserved⟩
      | some j =>
          obtain ⟨e, t, hrun, -⟩ := complete_leaves cfg j s
          exact ⟨e, t, (deviceTurn_some hline hi (of_decide_eq_true hbit) hserved).trans hrun⟩)
  refine Eq.trans (b := (List.range N_DEV_PER_IL).forM
    (deviceTurn cfg line (getDeviceBitmap line s)) s) rfl (hloop.trans ?_)
  rw [show (List.range N_DEV_PER_IL).find? (fun i ↦ decide (getDeviceBitmap line s &&&
    ((1 : Word) <<< i) ≠ 0)) = lowestDevice (getDeviceBitmap line s) from rfl]
  cases hlow : lowestDevice (getDeviceBitmap line s) with
  | none => rfl
  | some dev =>
      obtain ⟨hdev, hbit⟩ := lowestDevice_mem hlow
      simp only
      cases hserved : s.servedOf line dev with
      | none => exact deviceTurn_none hline hdev hbit hserved
      | some i => exact deviceTurn_some hline hdev hbit hserved

theorem deviceLine_mem {ip : Word} {line : Nat} (h : deviceLine ip = some line) :
    line ∈ [3, 4, 5, 6, 7] := by
  unfold deviceLine at h
  split at h
  · cases h; decide
  split at h
  · cases h; decide
  split at h
  · cases h; decide
  split at h
  · cases h; decide
  split at h
  · cases h; decide
  · cases h

/-- The choice among the device lines. -/
theorem deviceLine_elim {α : Type} (ip : Word) (f : Nat → α) (x : α) :
    (if ip &&& DISKINTERRUPT ≠ 0 then f IL_DISK
      else if ip &&& FLASHINTERRUPT ≠ 0 then f IL_FLASH
      else if ip &&& NETINTERRUPT ≠ 0 then f IL_ETHERNET
      else if ip &&& PRINTINTERRUPT ≠ 0 then f IL_PRINTER
      else if ip &&& TERMINTERRUPT ≠ 0 then f IL_TERMINAL
      else x) = (deviceLine ip).elim x f := by
  unfold deviceLine
  repeat (split; rfl)
  rfl

/-- The choice `interruptHandler` makes. -/
theorem interruptHandler_run (s : Nucleus n) :
    interruptHandler cfg s =
      (if s.pending &&& LOCALTIMERINT ≠ 0 then pltHandler cfg
      else if s.pending &&& TIMERINTERRUPT ≠ 0 then itHandler cfg
      else (deviceLine s.pending).elim (interruptHandlerExit cfg) (deviceHandler cfg))
        (s.interrupted cfg) := by
  rw [← deviceLine_elim]
  cases hc : s.curr_process with
  | none =>
      have hi : s.interrupted cfg = disableTimer s := by rw [Nucleus.interrupted, hc]
      rw [hi]
      simp only [interruptHandler, bind_run, get_run, hc, ne_eq, not_true_eq_false, if_false,
        modify_run]
      rfl
  | some c =>
      have hi : s.interrupted cfg = disableTimer (s.charge cfg c) := by rw [Nucleus.interrupted, hc]
      rw [hi]
      simp only [interruptHandler, bind_run, get_run, hc, ne_eq, reduceCtorEq, not_false_eq_true,
        if_true, updateProcessCPUTime_run cfg hc, modify_run]
      rfl

variable (cfg) in
theorem interrupted_served (s : Nucleus n) : (s.interrupted cfg).served = s.served := by
  unfold Nucleus.interrupted
  cases s.curr_process <;> rfl

variable (cfg) in
theorem interrupted_pending (s : Nucleus n) : (s.interrupted cfg).pending = s.pending := by
  unfold Nucleus.interrupted
  cases s.curr_process <;> rfl

/-- An interrupt that serves a device register. -/
theorem interruptHandler_served {i : Fin TOTAL_IO_DEVICES} (hi : s.served = some i) :
    interruptHandler cfg s = complete cfg i (s.interrupted cfg) (s.interrupted cfg) := by
  obtain ⟨hplt, hit, line, dev, hline, hdev, hof⟩ :=
    Nucleus.served_eq_some ((interrupted_served cfg s).trans hi)
  rw [interrupted_pending] at hplt hit hline
  rw [interruptHandler_run, if_neg hplt, if_neg hit, hline, Option.elim,
    deviceHandler_run (deviceLine_mem hline)]
  simp only [hdev, hof]

theorem Quiet.interrupted (cfg : Config n) (s : Nucleus n) : Quiet s (s.interrupted cfg) := by
  unfold Nucleus.interrupted
  cases s.curr_process with
  | none => exact ⟨fun _ ↦ rfl, rfl⟩
  | some c => exact (Quiet.charge cfg c s).trans ⟨fun _ ↦ rfl, rfl⟩

theorem interrupted_mem (s : Nucleus n) : (s.interrupted cfg).mem = s.mem := by
  unfold Nucleus.interrupted
  cases s.curr_process <;> rfl

theorem interrupted_curr (s : Nucleus n) : (s.interrupted cfg).curr_process = s.curr_process := by
  unfold Nucleus.interrupted
  cases hc : s.curr_process <;> exact hc

/-- An interrupt comes to one of these ends, or the kernel gives up. -/
theorem interruptHandler_ends (h : Core s held) (hv : s.mem cfg.semaphore_it ≠ 1) {e : Exit}
    (hrun : interruptHandler cfg s = .error e t) :
    Interrupted cfg (s.interrupted cfg) e t ∨ e = .nullDeref ∨
      e = .panic .noSemaphore ∧ (∃ i, s.served = some i ∧ s.mem (cfg.devSem i) = 1) ∨
      e = .panic .terminal := by
  have hasl := (h.quiet (.interrupted cfg s)).asl
  have hv' : (s.interrupted cfg).mem cfg.semaphore_it ≠ 1 := by rwa [interrupted_mem]
  rw [interruptHandler_run] at hrun
  rw [← interrupted_pending cfg s] at hrun
  split at hrun
  · rename_i hplt
    cases hc : (s.interrupted cfg).curr_process with
    | none =>
        rw [pltHandler_none hc] at hrun
        cases hrun
        exact .inr (.inl rfl)
    | some c =>
        obtain ⟨e', t', hrun', hsched⟩ := pltHandler_run cfg hc
        rw [hrun'] at hrun
        cases hrun
        exact .inl (.plt c hc hplt hsched)
  split at hrun
  · rename_i hit
    obtain ⟨e', t', hrun', hend⟩ := itHandler_run cfg hasl hv' rfl
    rw [hrun'] at hrun
    cases hrun
    exact .inl (.clock _ rfl hit hend)
  · rename_i hplt hit
    have htimer : ¬ ((s.interrupted cfg).pending &&& LOCALTIMERINT ≠ 0 ∨
        (s.interrupted cfg).pending &&& TIMERINTERRUPT ≠ 0) := fun e ↦ e.elim hplt hit
    have hserved : (s.interrupted cfg).served = _ := if_neg htimer
    cases hline : deviceLine (s.interrupted cfg).pending with
    | none =>
        rw [hline] at hrun hserved
        obtain ⟨e', t', hrun', hend⟩ := interruptHandlerExit_run cfg (s.interrupted cfg)
        rw [Option.elim, hrun'] at hrun
        cases hrun
        exact .inl (.none hserved hend)
    | some line =>
        rw [hline] at hrun hserved
        rw [Option.elim, deviceHandler_run (deviceLine_mem hline)] at hrun
        cases hdev : lowestDevice (getDeviceBitmap line (s.interrupted cfg)) with
        | none => rw [hdev] at hrun; cases hrun
        | some dev =>
            simp only [hdev, Option.bind_some] at hrun hserved
            cases hof : (s.interrupted cfg).servedOf line dev with
            | none =>
                rw [hof] at hrun
                cases hrun
                exact .inr (.inr (.inr rfl))
            | some i =>
                obtain ⟨e', t', hrun', hend⟩ := complete_leaves cfg i (s.interrupted cfg)
                simp only [hof, hrun'] at hrun
                cases hrun
                rw [hof] at hserved
                rcases hend with ⟨u, hret, hfin⟩ | he | he
                · exact .inl (.device i u hserved hret hfin)
                · exact .inr (.inl he)
                · rw [interrupted_served] at hserved
                  rw [interrupted_mem] at he
                  exact .inr (.inr (.inl ⟨he.1, i, hserved, he.2⟩))

end PandosPlus
