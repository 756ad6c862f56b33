import PandosPlus.Phase2.Kill

/-!
# How the system calls end

A system call made by the current process either leaves through the scheduler, or is
followed by `LDST` on the saved state.  `Called` has one constructor for each of the
ways a call can go; `systemcall_run` says that there are no others, except for an
access through a `NULL` pointer in the parameters and a command address that belongs
to no device.
-/

namespace PandosPlus

open Flow

variable {n : Nat}

namespace Nucleus

/-- The process TERMPROCESS is to kill. -/
def target (c : Fin n) (s : Nucleus n) : Option (Fin n) :=
  if s.prev.reg_a1 = 0 then some c else getProcessByPid s.prev.reg_a1 s

/-- CREATEPROCESS, with `p` taken from the free list for the child. -/
def created (cfg : Config n) (c p : Fin n) (rest : List (Fin n)) (statep : Word) (s : Nucleus n) :
    Nucleus n :=
  let prio := if s.prev.reg_a2 = 0 then Prio.low else Prio.high
  let u := fillPcb p (cfg.readState s.mem statep) prio (cfg.ptr s.prev.reg_a3) (s.enroll p rest)
  let v := insertChild c p (u.makeReady p)
  systemcallReturn (v.pid p) v

/-- DOIO before its P: the command is given, the caller counted. -/
def issue (i : Fin TOTAL_IO_DEVICES) (s : Nucleus n) : Nucleus n :=
  { s.store (commandAddr i) s.prev.reg_a2 with softblocked_count := s.softblocked_count + 1 }

/-- GETTIME -/
def timed (cfg : Config n) (c : Fin n) (s : Nucleus n) : Nucleus n :=
  systemcallReturn (BitVec.ofInt 32 ((s.charge cfg c).pcbFree_table c).p_time) (s.charge cfg c)

/-- The result of GETSUPPORTPTR. -/
def supportPtr (cfg : Config n) (c : Fin n) (s : Nucleus n) : Word :=
  cfg.addr (s.pcbFree_table c).p_supportStruct

/-- The result of GETPROCESSID. -/
def processId (c : Fin n) (s : Nucleus n) : Word :=
  if s.prev.reg_a1 = 0 then s.pid c else
    match s.parent c with
    | none => 0
    | some p => s.pid p

/-- YIELD before the scheduler. -/
def yielded (cfg : Config n) (c : Fin n) (s : Nucleus n) : Nucleus n :=
  { (({ s.saveState c s.prev with process_to_skip := some c }).wake c).charge cfg c with
    curr_process := none }

/-- The cause of an invalid system call becomes that of a reserved instruction. -/
def invalidated (s : Nucleus n) : Nucleus n :=
  { s with prev := { s.prev with cause := (s.prev.cause &&& 0xFFFFFF83) ||| 0x28 } }

/-- The support structure at `a` receives the saved state. -/
def savedUp (a : Word) (i : Fin 2) (s : Nucleus n) : Nucleus n :=
  { s with support := fun b ↦
      if b = a then
        { s.support a with sup_exceptState := fun j ↦
            if j = i then s.prev else (s.support a).sup_exceptState j }
      else s.support b }

end Nucleus

/-- The codes the nucleus serves. -/
def syscallCodes : List Int :=
  [CREATEPROCESS, TERMPROCESS, PASSEREN, VERHOGEN, DOIO, GETTIME, CLOCKWAIT, GETSUPPORTPTR,
    GETPROCESSID, YIELD]

variable (cfg : Config n)

/-- The caller is resumed when it is still there, and otherwise the next process is
dispatched. -/
inductive Finished (s : Nucleus n) (live : Prop) : Exit → Nucleus n → Prop
  | resume (hlive : live) : Finished s live (.ldst s.prev) s
  | schedule {e : Exit} {t : Nucleus n} (hdead : ¬ live) (hnext : Scheduled cfg s e t) :
      Finished s live e t

/-- How `_passUpOrDieHandler` ends. -/
inductive PassedUp (i : Fin 2) (c : Fin n) (s : Nucleus n) : Exit → Nucleus n → Prop
  | up (a : Word) (ha : (s.pcbFree_table c).p_supportStruct = some a) :
      PassedUp i c s (.ldcxt ((s.support a).sup_exceptContext i)) (s.savedUp a i)
  | die {e : Exit} {u : Nucleus n} (K : List (Fin n)) (t : Nucleus n)
      (ha : (s.pcbFree_table c).p_supportStruct = none) (hkill : Killed cfg c K s t)
      (hnext : Scheduled cfg t e u) : PassedUp i c s e u

/-- How the system call with a given code, made by `c`, ends. -/
inductive Called (c : Fin n) (s : Nucleus n) : Int → Exit → Nucleus n → Prop
  | createFails (hfree : s.pcbFree_h = []) :
      Called c s CREATEPROCESS (.ldst (systemcallReturn (-1) s).prev) (systemcallReturn (-1) s)
  | create (p : Fin n) (rest : List (Fin n)) (statep : Word) (hfree : s.pcbFree_h = p :: rest)
      (hstate : cfg.ptr s.prev.reg_a1 = some statep) :
      Called c s CREATEPROCESS (.ldst (s.created cfg c p rest statep).prev)
        (s.created cfg c p rest statep)
  | kill {e : Exit} {u : Nucleus n} (p : Fin n) (K : List (Fin n)) (t : Nucleus n)
      (htarget : s.target c = some p) (hkill : Killed cfg p K s t)
      (hend : Finished cfg t (s.prev.reg_a1 ≠ 0 ∧ t.pid c ≠ FREE_PCB_PID) e u) :
      Called c s TERMPROCESS e u
  | killNone {e : Exit} {u : Nucleus n} (htarget : s.target c = none)
      (hend : Finished cfg s (s.pid c ≠ FREE_PCB_PID) e u) : Called c s TERMPROCESS e u
  | passeren {e : Exit} {t : Nucleus n} (k : Word) (hk : cfg.ptr s.prev.reg_a1 = some k)
      (hsem : SemCall cfg 0 k c s e t) : Called c s PASSEREN e t
  | verhogen {e : Exit} {t : Nucleus n} (k : Word) (hk : cfg.ptr s.prev.reg_a1 = some k)
      (hsem : SemCall cfg 1 k c s e t) : Called c s VERHOGEN e t
  | doIo {e : Exit} {t : Nucleus n} (i : Fin TOTAL_IO_DEVICES)
      (hi : s.prev.reg_a1 = commandAddr i)
      (hsem : SemCall cfg 0 (cfg.devSem i) c (s.issue i) e t) : Called c s DOIO e t
  | getTime : Called c s GETTIME (.ldst (s.timed cfg c).prev) (s.timed cfg c)
  | clockWait {e : Exit} {t : Nucleus n}
      (hsem : SemCall cfg 0 cfg.semaphore_it c
        { s with softblocked_count := s.softblocked_count + 1 } e t) : Called c s CLOCKWAIT e t
  | getSupportPtr :
      Called c s GETSUPPORTPTR (.ldst (systemcallReturn (s.supportPtr cfg c) s).prev)
        (systemcallReturn (s.supportPtr cfg c) s)
  | getProcessId :
      Called c s GETPROCESSID (.ldst (systemcallReturn (s.processId c) s).prev)
        (systemcallReturn (s.processId c) s)
  | yield {e : Exit} {t : Nucleus n} (hnext : Scheduled cfg (s.yielded cfg c) e t) :
      Called c s YIELD e t
  | invalid {code : Int} {e : Exit} {t : Nucleus n} (hcode : code ∉ syscallCodes)
      (hend : PassedUp cfg GENERALEXCEPT c s.invalidated e t) :
      Called c s code e t

variable {cfg} {s t : Nucleus n} {c p : Fin n} {held : List (Fin n)}

/-- A routine followed by `LDST` ends in one of the ways `R`, or in an access to memory
that is not there. -/
def Ends (m : NucM n Unit) (s : Nucleus n) (R : Exit → Nucleus n → Prop) : Prop :=
  ∃ e t, (m >>= fun _ ↦ resume) s = .error e t ∧ (R e t ∨ e = .nullDeref ∨ e = .busError)

section Ends

variable {m : NucM n Unit} {R R' : Exit → Nucleus n → Prop} {e : Exit}

theorem Ends.of_error (h : m s = .error e t) (hr : R e t) : Ends m s R :=
  ⟨e, t, by rw [bind_run, h], .inl hr⟩

theorem Ends.of_null (h : m s = .error .nullDeref t) : Ends m s R :=
  ⟨_, t, by rw [bind_run, h], .inr (.inl rfl)⟩

theorem Ends.of_ok (h : m s = .ok ⟨⟩ t) (hr : R (.ldst t.prev) t) : Ends m s R :=
  ⟨_, t, by rw [bind_run, h]; rfl, .inl hr⟩

theorem Ends.mono (h : Ends m s R) (hr : ∀ e t, R e t → R' e t) : Ends m s R' := by
  obtain ⟨e, t, hrun, hend⟩ := h
  exact ⟨e, t, hrun, hend.imp_left (hr e t)⟩

/-- The routine is the same from `s` as another one from `t`. -/
theorem Ends.of_eq {g : NucM n Unit} (h : m s = g t) (he : Ends g t R) : Ends m s R := by
  obtain ⟨e, u, hrun, hend⟩ := he
  exact ⟨e, u, by rw [bind_run, h]; exact hrun, hend⟩

end Ends

theorem scheduler_ends (s : Nucleus n) : Ends (scheduler cfg) s (Scheduled cfg s) := by
  obtain ⟨e, t, hrun, hsched⟩ := scheduler_run cfg s
  exact .of_error hrun hsched

/-! ## The calls -/

theorem fillPcb_prio (p : Fin n) (state : State) (pr : Prio) (supportp : Option Word)
    (s : Nucleus n) : (fillPcb p state pr supportp s).prio p = pr := by
  rw [Nucleus.prio, fillPcb, Nucleus.modifyPcb_table, if_pos rfl]

theorem createProcess_ends (hc : s.curr_process = some c) :
    Ends (createProcess cfg) s (Called cfg c s CREATEPROCESS) := by
  cases hf : s.pcbFree_h with
  | nil =>
      refine .of_ok ?_ (.createFails hf)
      simp only [createProcess, bind_run, get_run, allocPcb_nil hf, modify_run]
  | cons p rest =>
      cases hstate : cfg.ptr s.prev.reg_a1 with
      | none =>
          refine .of_null (t := s.enroll p rest) ?_
          simp only [createProcess, bind_run, get_run, allocPcb_cons hf, set_run, hstate, deref_none]
          rfl
      | some statep =>
          refine .of_ok ?_ (.create p rest statep hf hstate)
          simp only [createProcess, bind_run, get_run, allocPcb_cons hf, set_run, hstate, deref_some,
            modify_run, hc, Nucleus.created, Nucleus.makeReady, fillPcb_prio]
          rfl

theorem termProcess_ends (hs : Core s held) (hc : s.curr_process = some c) :
    Ends (termProcess cfg) s (Called cfg c s TERMPROCESS) := by
  by_cases hpid : s.prev.reg_a1 = 0
  · -- the caller kills itself
    have htarget : s.target c = some c := if_pos hpid
    obtain ⟨K, t, hrun, hkill⟩ := killProcess_run cfg hs.linked c
    refine Ends.of_eq (g := scheduler cfg) (t := t) ?_ ((scheduler_ends t).mono fun e u hsched ↦
      .kill c K t htarget hkill (.schedule (fun h ↦ h.1 hpid) hsched))
    simp only [termProcess, bind_run, get_run, ite_run, hpid, if_true, hc, deref_some, hrun]
  · cases hp : getProcessByPid s.prev.reg_a1 s with
    | none =>
        have htarget : s.target c = none := (if_neg hpid).trans hp
        by_cases hlive : s.pid c ≠ FREE_PCB_PID
        · refine .of_ok ?_ (.killNone htarget (.resume hlive))
          simp only [termProcess, bind_run, get_run, ite_run, hpid, if_false, hp, pure_run, hc,
            isAlive_live cfg hlive, Bool.not_true, Bool.false_eq_true]
        · refine Ends.of_eq (g := scheduler cfg) (t := s) ?_ ((scheduler_ends s).mono
            fun e u hsched ↦ .killNone htarget (.schedule hlive hsched))
          simp only [termProcess, bind_run, get_run, ite_run, hpid, if_false, hp, pure_run, hc,
            isAlive_dead cfg hlive, Bool.not_false, if_true]
    | some p =>
        have htarget : s.target c = some p := (if_neg hpid).trans hp
        obtain ⟨K, t, hrun, hkill⟩ := killProcess_run cfg hs.linked p
        have hc' : t.curr_process = some c := by
          rw [← hc]
          exact congrArg (·.1.2.1) hkill.torn.kept
        by_cases hlive : t.pid c ≠ FREE_PCB_PID
        · refine .of_ok ?_ (.kill p K t htarget hkill (.resume ⟨hpid, hlive⟩))
          simp only [termProcess, bind_run, get_run, ite_run, hpid, if_false, hp, hrun, hc',
            isAlive_live cfg hlive, Bool.not_true, Bool.false_eq_true, pure_run]
        · refine Ends.of_eq (g := scheduler cfg) (t := t) ?_ ((scheduler_ends t).mono
            fun e u hsched ↦ .kill p K t htarget hkill (.schedule (fun h ↦ hlive h.2) hsched))
          simp only [termProcess, bind_run, get_run, ite_run, hpid, if_false, hp, hrun, hc',
            isAlive_dead cfg hlive, Bool.not_false, if_true]

variable (cfg) in
/-- PASSEREN and VERHOGEN. -/
theorem semOp_ends (full : Word) (hs : Core s (c :: held)) (hc : s.curr_process = some c)
    (sem : Option Word) {R : Exit → Nucleus n → Prop}
    (hR : ∀ k e t, sem = some k → SemCall cfg full k c s e t → R e t) :
    Ends (semOp cfg full sem s.curr_process s.prev >>= fun _ ↦ pure ⟨⟩) s R := by
  have hsem : s.semAdd c = none := (hs.of_held List.mem_cons_self).2.2.1
  rw [hc]
  cases sem with
  | none => exact .of_null (t := s) rfl
  | some k =>
      obtain ⟨e, t, hrun, hcall⟩ := semOp_run cfg full k hs.asl hc hsem
      refine ⟨e, t, ?_, .inl (hR k e t rfl hcall)⟩
      rw [← hrun]
      simp only [bind_run]
      cases semOp cfg full (some k) (some c) s.prev s <;> rfl

theorem storeCommand_run {s : Nucleus n} (i : Fin TOTAL_IO_DEVICES) (v : Word) :
    storeCommand (commandAddr i) v s = .ok ⟨⟩ (s.store (commandAddr i) v) := by
  have : ∃ j, commandAddr j = commandAddr i := ⟨i, rfl⟩
  simp only [storeCommand, ite_run, if_pos this, modify_run]

theorem storeCommand_error {a : Word} (h : ∀ i, a ≠ commandAddr i) (v : Word) :
    storeCommand a v s = .error .busError s := by
  have : ¬ ∃ i, commandAddr i = a := fun ⟨i, hi⟩ ↦ h i hi.symm
  simp only [storeCommand, ite_run, if_neg this, throw_run]

/-- The semaphore of a command field is the one with its index. -/
theorem getIODeviceSemaphore_commandAddr (i : Fin TOTAL_IO_DEVICES) :
    getIODeviceSemaphore cfg (commandAddr i) = cfg.devSem i := by
  rw [getIODeviceSemaphore, Config.devSem]
  refine congrArg (cfg.semaphore_devices + ·) ?_
  revert i
  decide

theorem doIo_ends (hs : Core s (c :: held)) (hc : s.curr_process = some c) :
    Ends (doIo cfg) s (Called cfg c s DOIO) := by
  by_cases hi : ∃ i, commandAddr i = s.prev.reg_a1
  · obtain ⟨i, hi⟩ := hi
    have hcore : Core (s.issue i) (c :: held) := hs.quiet ⟨fun _ ↦ rfl, rfl⟩
    refine Ends.of_eq ?_ (semOp_ends cfg 0 hcore hc (some (cfg.devSem i))
      fun k e t hk hsem ↦ .doIo i hi.symm (Option.some.inj hk ▸ hsem))
    simp only [doIo, bind_run, get_run, ← hi, storeCommand_run, modify_run, semP,
      getIODeviceSemaphore_commandAddr]
    rfl
  · refine ⟨.busError, s, ?_, .inr (.inr rfl)⟩
    simp only [doIo, bind_run, get_run, storeCommand_error fun i e ↦ hi ⟨i, e.symm⟩]

theorem clockWait_ends (hs : Core s (c :: held)) (hc : s.curr_process = some c) :
    Ends (clockWait cfg) s (Called cfg c s CLOCKWAIT) := by
  have hcore : Core { s with softblocked_count := s.softblocked_count + 1 } (c :: held) :=
    hs.quiet ⟨fun _ ↦ rfl, rfl⟩
  exact Ends.of_eq rfl (semOp_ends cfg 0 hcore hc (some cfg.semaphore_it)
    fun k e t hk hsem ↦ .clockWait (Option.some.inj hk ▸ hsem))

theorem getCPUTime_ends (hc : s.curr_process = some c) :
    Ends (getCPUTime cfg) s (Called cfg c s GETTIME) := by
  have hc' : (s.charge cfg c).curr_process = some c := hc
  refine .of_ok ?_ .getTime
  simp only [getCPUTime, bind_run, updateProcessCPUTime_run cfg hc, get_run, hc', deref_some,
    modify_run, Nucleus.timed]

theorem getSupportPtr_ends (hc : s.curr_process = some c) :
    Ends (getSupportPtr cfg) s (Called cfg c s GETSUPPORTPTR) := by
  refine .of_ok ?_ .getSupportPtr
  simp only [getSupportPtr, bind_run, get_run, hc, deref_some, modify_run, Nucleus.supportPtr]

theorem getProcessId_ends (hc : s.curr_process = some c) :
    Ends getProcessId s (Called cfg c s GETPROCESSID) := by
  refine .of_ok ?_ .getProcessId
  by_cases ha : s.prev.reg_a1 = 0
  · simp only [getProcessId, bind_run, get_run, hc, deref_some, ha, if_true, modify_run,
      Nucleus.processId]
    rfl
  · cases hp : s.parent c with
    | none =>
        have hp' : (s.pcbFree_table c).p_parent = none := hp
        simp only [getProcessId, bind_run, get_run, hc, deref_some, ha, if_false, hp', modify_run,
          Nucleus.processId, hp]
    | some p =>
        have hp' : (s.pcbFree_table c).p_parent = some p := hp
        simp only [getProcessId, bind_run, get_run, hc, deref_some, ha, if_false, hp', modify_run,
          Nucleus.processId, hp]
        rfl

theorem yield_ends (hc : s.curr_process = some c) :
    Ends (yield cfg) s (Called cfg c s YIELD) := by
  have hc' : (({ s.saveState c s.prev with process_to_skip := some c } : Nucleus n).wake
      c).curr_process = some c := (Nucleus.wake_curr c _).trans hc
  refine Ends.of_eq ?_ ((scheduler_ends (s.yielded cfg c)).mono fun e t h ↦ .yield h)
  have hsave : s.modifyPcb c (fun x ↦ { x with p_s := s.prev }) = s.saveState c s.prev := rfl
  have hskip : ({ s.saveState c s.prev with
      process_to_skip := (s.saveState c s.prev).curr_process } : Nucleus n) =
      { s.saveState c s.prev with process_to_skip := some c } := by
    rw [← hc]
    rfl
  simp only [yield, bind_run, get_run, hc, deref_some, modify_run, hsave, hskip,
    setProcessReady_run, updateProcessCPUTime_run cfg hc', Nucleus.yielded]

variable (cfg) in
theorem passUpOrDieHandler_ends (hs : Linked s) (hc : s.curr_process = some c) (i : Fin 2) :
    ∃ e t, passUpOrDieHandler cfg i s = .error e t ∧ PassedUp cfg i c s e t := by
  cases ha : (s.pcbFree_table c).p_supportStruct with
  | none =>
      obtain ⟨K, t, hrun, hkill⟩ := killProcess_run cfg hs c
      obtain ⟨e, u, hsched, hend⟩ := scheduler_run cfg t
      refine ⟨e, u, ?_, .die K t ha hkill hend⟩
      simp only [passUpOrDieHandler, bind_run, get_run, hc, deref_some, ha, hrun, hsched]
  | some a =>
      refine ⟨_, _, ?_, .up a ha⟩
      simp only [passUpOrDieHandler, bind_run, get_run, hc, deref_some, ha, set_run, throw_run,
        Nucleus.savedUp]

variable (cfg) in
theorem generateInvalidSystemCallTrap_ends (hs : Linked s) (hc : s.curr_process = some c) :
    ∃ e t, generateInvalidSystemCallTrap cfg s = .error e t ∧
      PassedUp cfg GENERALEXCEPT c s.invalidated e t := by
  have hs' : Linked s.invalidated :=
    ⟨⟨hs.forest.link, hs.forest.nodup⟩, hs.asl, hs.ready_nodup, hs.prio, hs.pids_nodup⟩
  exact passUpOrDieHandler_ends cfg hs' hc GENERALEXCEPT

variable (cfg) in
/-- A system call with any code, made by the current process in kernel mode. -/
theorem systemcall_ends (hs : Core s (c :: held)) (hc : s.curr_process = some c) (code : Int) :
    Ends (systemcall cfg code) s (Called cfg c s code) := by
  unfold systemcall
  by_cases h1 : code = CREATEPROCESS
  · rw [if_pos h1, h1]
    exact createProcess_ends hc
  rw [if_neg h1]
  by_cases h2 : code = TERMPROCESS
  · rw [if_pos h2, h2]
    exact termProcess_ends hs hc
  rw [if_neg h2]
  by_cases h3 : code = PASSEREN
  · rw [if_pos h3, h3]
    exact Ends.of_eq rfl (semOp_ends cfg 0 hs hc _ fun k e t hk hsem ↦ .passeren k hk hsem)
  rw [if_neg h3]
  by_cases h4 : code = VERHOGEN
  · rw [if_pos h4, h4]
    exact Ends.of_eq rfl (semOp_ends cfg 1 hs hc _ fun k e t hk hsem ↦ .verhogen k hk hsem)
  rw [if_neg h4]
  by_cases h5 : code = DOIO
  · rw [if_pos h5, h5]
    exact doIo_ends hs hc
  rw [if_neg h5]
  by_cases h6 : code = GETTIME
  · rw [if_pos h6, h6]
    exact getCPUTime_ends hc
  rw [if_neg h6]
  by_cases h7 : code = CLOCKWAIT
  · rw [if_pos h7, h7]
    exact clockWait_ends hs hc
  rw [if_neg h7]
  by_cases h8 : code = GETSUPPORTPTR
  · rw [if_pos h8, h8]
    exact getSupportPtr_ends hc
  rw [if_neg h8]
  by_cases h9 : code = GETPROCESSID
  · rw [if_pos h9, h9]
    exact getProcessId_ends hc
  rw [if_neg h9]
  by_cases h10 : code = YIELD
  · rw [if_pos h10, h10]
    exact yield_ends hc
  rw [if_neg h10]
  obtain ⟨e, t, hrun, hend⟩ := generateInvalidSystemCallTrap_ends cfg hs.linked hc
  exact .of_error hrun (.invalid (by simp [syscallCodes, *]) hend)

end PandosPlus
